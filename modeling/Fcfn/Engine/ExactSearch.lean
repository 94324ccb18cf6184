import Fcfn.Engine.Exact

/-!
# The steps of the exact search

One lemma for each thing a search node does (give up, discard an oversized set, record a leaf,
record a witness, prune, branch), each of which ends in an `Outcome`; `search_outcome` puts them
together by induction on the depth. -/

namespace Fcfn

open Sorted Walks

namespace ExactState

open ContainmentProblem

variable {p : ContainmentProblem} {max_explored_nodes : UInt64} {s s' : ExactState}

/-! ## Leaves and discarded nodes -/

/-- Counting an explored node changes no mark and nothing that was found. -/
theorem found_counters (h : Found p max_explored_nodes s) (hs : s.aborted = false)
    {counters : SolveCounters} (hc : counters.budget_exhausted = s.counters.budget_exhausted) :
    Found p max_explored_nodes { s with counters := counters } where
  best := h.best
  witness := h.witness
  exhausted := by simp only [hc, h.exhausted]
  exceeded := by simp [hs]

/-- A state that differs in its counters only, when there is no better set under the node. -/
theorem outcome_counters (h : Found p max_explored_nodes s) (hs : s.aborted = false)
    {counters : SolveCounters} (hc : counters.budget_exhausted = s.counters.budget_exhausted)
    (hcov : Covers p s.included s.excluded s.best) :
    Outcome p max_explored_nodes s { s with counters := counters } where
  frame := ⟨rfl, rfl, rfl, rfl, rfl⟩
  found := found_counters h hs hc
  improves := Improves.refl _
  sticky h := by rw [hs] at h; exact absurd h (by simp)
  covers _ := hcov
  keeps _ _ := rfl

/-- A node whose set is too large or too heavy has no accepted set under it. -/
theorem covers_of_oversized (hn : Node p s)
    (hbig : s.current.length > p.max_members ∨ s.current_weight > p.max_total_weight)
    (best : Option (List NodeIndex × ObjectiveVector)) : Covers p s.included s.excluded best := by
  intro cut leaf hacc hin _ _ _
  have hsub : ∀ x ∈ s.current, x ∈ cut := fun x hx => hin x (hn.mem_included.mpr hx)
  have hlen := length_le_of_subset hn.nodup hsub
  have hwt := weight_le_of_subset (p := p) hn.nodup hsub hacc.nodup
  have hsize := hacc.size_le
  have hweight := hacc.weight_le
  have hcur := hn.weight_eq
  rcases hbig with h | h <;> omega

/-- A residual path without a containable node has no accepted set under it. -/
theorem covers_of_ineligible (hpath : shortestResidualPath p s.included ≠ [])
    (hall : ∀ x ∈ shortestResidualPath p s.included, p.isContainable x = false)
    (best : Option (List NodeIndex × ObjectiveVector)) : Covers p s.included s.excluded best := by
  intro cut leaf hacc _ _ _ _
  obtain ⟨x, hx, hcut⟩ := hacc.separates.meets hpath
  exact absurd (hacc.containable x hcut) (by simp [hall x hx])

/-- A residual path without a containable node is a certificate. -/
theorem witness_of_ineligible {blocked : List NodeIndex}
    (hpath : shortestResidualPath p blocked ≠ [])
    (hall : ∀ x ∈ shortestResidualPath p blocked, p.isContainable x = false) :
    verifyInfeasibilityWitness p (shortestResidualPath p blocked) = true := by
  have hp := residual_path hpath
  obtain ⟨r, hr, hhead⟩ := hp.head
  obtain ⟨t, hlast, hgoal, -⟩ := hp.last
  have hchain : (shortestResidualPath p blocked).IsChain
      (fun a b => b ∈ p.graph.conservativeSuccessors a) := hp.chain
  simp only [verifyInfeasibilityWitness, Bool.and_eq_true, decide_eq_true_eq, hhead, hlast,
    Option.any_some, isSource, hgoal, List.all_eq_true, Bool.not_eq_true']
  exact ⟨⟨⟨⟨hp.two_le_length, hr⟩, trivial⟩, hall⟩, hchain⟩

/-- When the obligations are containable every residual path has a containable node. -/
theorem exists_containable {blocked : List NodeIndex}
    (hopen : ∀ x ∈ p.protected_nodes, p.isContainable x = true)
    (hpath : shortestResidualPath p blocked ≠ []) :
    ∃ x ∈ shortestResidualPath p blocked, p.isContainable x = true := by
  obtain ⟨-, -, t, ht, hlast⟩ := residual_walk hpath
  exact ⟨t, List.mem_of_getLast? hlast, hopen t ht⟩

/-- At a leaf the set under construction is the best one under the node. -/
theorem outcome_leaf (hp : p.WellFormed) (hn : Node p s) (hf : Found p max_explored_nodes s)
    (hpath : shortestResidualPath p s.included = []) :
    Outcome p max_explored_nodes s (s.recordLeaf p) := by
  have hsorted : (sortBy id s.current).dedup = sortBy id s.current :=
    List.dedup_eq_self.mpr (perm_sortBy.nodup_iff.mpr hn.nodup)
  -- Under the node, a traceable set contains the leaf, which is then accepted and no worse.
  have hcover (best : Option (List NodeIndex × ObjectiveVector))
      (hbest : ∀ o, verifyCut p s.current = .ok o → ∃ b, best = some b ∧
        objectiveKey p.minimize_protected_inclusions b.2 ≤
          objectiveKey p.minimize_protected_inclusions o) :
      Covers p s.included s.excluded best := by
    intro cut leaf hacc hin _ htr hov
    have hsub : ∀ x ∈ s.current, x ∈ cut := fun x hx => hin x (hn.mem_included.mpr hx)
    have hleaf : leaf = s.included := by
      cases htr with
      | done _ => rfl
      | step heq => rw [hpath] at heq; simp at heq
    subst hleaf
    have hcur : p.Accepts s.current := by
      refine ⟨le_trans (length_le_of_subset hn.nodup hsub) hacc.size_le, hn.nodup, hn.lt,
        fun x hx => hacc.containable x (hsub x hx), fun x hx => hacc.allowed x (hsub x hx),
        le_trans (weight_le_of_subset hn.nodup hsub hacc.nodup) hacc.weight_le, ?_, ?_⟩
      · intro hr x hx hc
        exact hn.mandatory x (by simp [isMandatoryMember, hr, isSource, hx, hc])
      · refine ((separates_iff hp).mpr ⟨hpath, hov⟩).mono fun x hx => hn.mem_included.mp hx
    obtain ⟨b, hb, hle⟩ := hbest _ ((verifyCut_eq_ok_iff hp).mpr ⟨hcur, rfl⟩)
    exact ⟨b, hb, le_trans hle (objectiveKey_mono hn.nodup hsub hacc.nodup)⟩
  rw [recordLeaf]
  cases hv : verifyCut p s.current with
  | error e =>
    exact ⟨Frame.refl s, hf, Improves.refl _, id,
      fun _ => hcover _ fun o ho => by simp [hv] at ho, fun _ _ => rfl⟩
  | ok o =>
    obtain ⟨hacc, rfl⟩ := (verifyCut_eq_ok_iff hp).mp hv
    have hfound : Found p max_explored_nodes
        { s with best := some ((sortBy id s.current).dedup, p.objectiveOf s.current) } := by
      refine ⟨fun members objective hb => ?_, hf.witness, hf.exhausted, hf.exceeded⟩
      simp only [Option.some.injEq, Prod.mk.injEq] at hb
      obtain ⟨rfl, rfl⟩ := hb
      rw [hsorted]
      have hperm : s.current.Perm (sortBy id s.current) := perm_sortBy.symm
      refine ⟨hacc.perm hperm, objectiveOf_perm hn.nodup hperm, s.included, ?_, ?_⟩
      · refine hn.traced _ _ (fun x hx => mem_sortBy.mpr hx) (fun x hx hin => ?_)
          (fun x hx => hacc.containable x (mem_sortBy.mp hx)) (.done hpath)
        exact hn.disjoint x hx (mem_sortBy.mp hin)
      · intro x hx hprot
        exact hn.mem_included.mpr (((separates_iff hp).mp hacc.separates).2 x hx hprot)
    simp only
    by_cases hbeats : beats p (p.objectiveOf s.current) s.best = true
    · rw [if_pos hbeats]
      refine ⟨⟨rfl, rfl, rfl, rfl, rfl⟩, hfound, fun b hb => ?_, id,
        fun _ => hcover _ fun o ho => ?_, fun _ _ => rfl⟩
      · rw [hb] at hbeats
        exact ⟨_, rfl, (objectiveLess_iff.mp hbeats).le⟩
      · rw [hv] at ho
        exact ⟨_, rfl, by rw [Except.ok.inj ho]⟩
    · rw [if_neg hbeats]
      refine ⟨Frame.refl s, hf, Improves.refl _, id, fun _ => hcover _ fun o ho => ?_,
        fun _ _ => rfl⟩
      rw [hv] at ho
      obtain rfl := Except.ok.inj ho
      cases hb : s.best with
      | none => rw [hb] at hbeats; exact absurd rfl hbeats
      | some b =>
        rw [hb, beats, objectiveLess_iff, not_lt] at hbeats
        exact ⟨b, rfl, hbeats⟩

/-! ## Pruning -/

/-- The bound step changes counters only, and cuts off only what the best set covers. -/
theorem boundStep_spec (hp : p.WellFormed) (hn : Node p s) :
    (∃ counters : SolveCounters, counters.budget_exhausted = s.counters.budget_exhausted ∧
      (boundStep p s).1 = { s with counters := counters }) ∧
      ((boundStep p s).2 = true → Covers p s.included s.excluded s.best) := by
  rw [boundStep]
  split
  · exact ⟨⟨s.counters, rfl, rfl⟩, by simp⟩
  · rename_i members best hb
    -- the paths of the bound are disjoint, so a cut pays for each of them
    have hbound (cut : List NodeIndex) (hacc : p.Accepts cut) (hex : ∀ x ∈ s.excluded, x ∉ cut) :=
      disjointPathBound_le hp hacc (fun x hx hxe => hex x hxe hx) s.included kBoundIterations
        s.included 0 s.counters.residual_paths_checked (fun x hx => hx) (Nat.zero_le _)
    simp only
    generalize disjointPathBound p s.excluded kBoundIterations s.included 0
      s.counters.residual_paths_checked = r at *
    obtain ⟨bound, checked⟩ := r
    cases bound with
    | none =>
      refine ⟨⟨{ s.counters with residual_paths_checked := checked }, rfl, rfl⟩,
        fun _ cut leaf hacc _ hex _ _ => ?_⟩
      -- without a bound no cut is left, and there is nothing to cover
      obtain ⟨b, hnone, -⟩ := hbound cut hacc hex
      simp at hnone
    | some weight_bound =>
      simp only
      split
      · rename_i hless
        refine ⟨⟨{ s.counters with
            residual_paths_checked := checked
            pruned_branches := s.counters.pruned_branches + 1 }, rfl, rfl⟩,
          fun _ cut leaf hacc hin hex _ _ => ⟨_, hb, ?_⟩⟩
        obtain ⟨b, hsome, hle⟩ := hbound cut hacc hex
        simp only [Option.some.injEq] at hsome
        subst hsome
        have hsub : ∀ x ∈ s.current, x ∈ cut := fun x hx => hin x (hn.mem_included.mpr hx)
        -- the bound is about the members that the current set does not have
        have hrest : (cut.filter fun x => decide (x ∉ s.included)) =
            cut.filter fun x => decide (x ∉ s.current) :=
          List.filter_congr fun x _ => decide_eq_decide.mpr (not_congr hn.mem_included)
        have hsplit := weight_split (p := p) hn.nodup hsub hacc.nodup
        rw [hrest] at hle
        -- the sum is below the total weight, which fits a word
        have htotal : (checkedAdd s.current_weight weight_bound).getD kMaxUInt64 ≤
            (cut.map p.weight).sum := by
          have h1 := hn.weight_eq
          have h2 := hacc.weight_le
          have h3 := hp.max_total_weight_le
          rw [checkedAdd, if_neg (by omega), Option.getD_some]
          omega
        refine le_trans (objectiveLess_iff.mp hless).le (objectiveKey_le ?_ htotal
          (length_le_of_subset hn.nodup hsub) fun _ => nil_le_signature _)
        simp only [lowerBound, hn.protected_eq, objectiveOf]
        exact (List.subperm_of_subset hn.nodup hsub).countP_le _
      · exact ⟨⟨{ s.counters with residual_paths_checked := checked }, rfl, rfl⟩, by simp⟩

/-! ## Branching -/

/-- A function that does what a search node does, for nodes within a depth. -/
def Searches (p : ContainmentProblem) (max_explored_nodes : UInt64)
    (search : ExactState → ExactState) (depth : ℕ) : Prop :=
  ∀ s, Node p s → Found p max_explored_nodes s → p.nodeCount + 1 ≤ depth + s.current.length →
    Outcome p max_explored_nodes s (search s)

/-- Including the next node of the residual path, when each one before it is excluded or may not
be contained, is a node of the search. -/
theorem node_includeNode (hp : p.WellFormed) (hn : Node p s) {before after : List NodeIndex}
    {x : NodeIndex} (hpath : shortestResidualPath p s.included = before ++ x :: after)
    (hbefore : ∀ y ∈ before, y ∈ s.excluded ∨ p.isContainable y = false) (hx : x ∉ s.excluded) :
    Node p (s.includeNode p x) := by
  obtain ⟨hlt, hout⟩ := lt_of_mem_residual hp (show x ∈ shortestResidualPath p s.included by
    rw [hpath]; simp)
  have hcur : x ∉ s.current := fun h => hout (hn.mem_included.mpr h)
  refine ⟨?_, ?_, ?_, ?_, ?_, ?_, ?_, ?_⟩
  · simp [includeNode, hn.included_eq]
  · simp [includeNode, hn.weight_eq]
  · simp only [includeNode, hn.protected_eq, List.countP_append, List.countP_singleton]
  · exact List.nodup_append.mpr ⟨hn.nodup, by simp,
      by rintro a ha b hb rfl; exact hcur (List.mem_singleton.mp hb ▸ ha)⟩
  · intro y hy
    rcases List.mem_append.mp hy with hy | hy
    · exact hn.lt y hy
    · exact List.mem_singleton.mp hy ▸ hlt
  · exact fun y hy => List.mem_append_left _ (hn.mandatory y hy)
  · intro y hy hin
    rcases List.mem_append.mp hin with hin | hin
    · exact hn.disjoint y hy hin
    · exact hx (List.mem_singleton.mp hin ▸ hy)
  · intro cut leaf hin hex hc htr
    refine hn.traced cut leaf (fun y hy => hin y (List.mem_append_left _ hy)) hex hc
      (.step hpath (fun y hy hycut => ?_) (hin x (by simp [includeNode])) htr)
    rcases hbefore y hy with h | h
    · exact hex y h hycut
    · rw [hc y hycut] at h
      exact absurd h (by simp)

/-- Taking out the node that was put in restores the marks. -/
theorem frame_unincludeNode (hn : Node p s) {x : NodeIndex} (hx : x ∉ s.current)
    (hf : Frame (s.includeNode p x) s') : Frame s (s'.unincludeNode p x) := by
  have hinc : x ∉ s.included := fun h => hx (hn.mem_included.mp h)
  refine ⟨?_, hf.excluded, ?_, ?_, ?_⟩
  · simp only [unincludeNode, hf.included, includeNode]
    rw [List.filter_cons_of_neg (by simp), List.filter_eq_self]
    intro y hy
    simp only [ne_eq, decide_eq_true_eq]
    rintro rfl
    exact hinc hy
  · simp [unincludeNode, hf.current, includeNode]
  · simp [unincludeNode, hf.current_weight, includeNode]
  · simp [unincludeNode, hf.current_protected, includeNode]

/-- A node with the exclusions made at it so far, the latest first. -/
def withHere (s : ExactState) (here : List NodeIndex) : ExactState :=
  { s with excluded := here.reverse ++ s.excluded }

/-- A state within the branching under the node `s₀`: the marks are those of the node and the
exclusions made here, each of a path node, and each path node passed is excluded or may not be
contained. -/
structure Progress (p : ContainmentProblem) (max_explored_nodes : UInt64) (s₀ : ExactState)
    (before here : List NodeIndex) (s : ExactState) : Prop where
  frame : Frame (s₀.withHere here) s
  fresh : ∀ x ∈ here, x ∈ before ∧ x ∉ s₀.excluded
  passed : ∀ y ∈ before, y ∈ s.excluded ∨ p.isContainable y = false
  found : Found p max_explored_nodes s

/-- What the branches under the node `s₀`, from the state `s` on, have done when they end in `s'`
with the exclusions `here'`. -/
structure Branched (p : ContainmentProblem) (max_explored_nodes : UInt64) (s₀ : ExactState)
    (before : List NodeIndex) (s s' : ExactState) (here' : List NodeIndex) : Prop where
  frame : Frame (s₀.withHere here') s'
  fresh : ∀ x ∈ here', x ∉ s₀.excluded
  found : Found p max_explored_nodes s'
  improves : Improves p s.best s'.best
  sticky : s.aborted = true → s'.aborted = true
  covers : s'.aborted = false → ∀ cut leaf, p.Accepts cut → (∀ x ∈ s₀.included, x ∈ cut) →
    (∀ x ∈ s₀.excluded, x ∉ cut) → (∀ y ∈ before, y ∉ cut) → Traced p cut s₀.included leaf →
    p.HoldsOverlap leaf → ∃ b, s'.best = some b ∧
      objectiveKey p.minimize_protected_inclusions b.2 ≤
        objectiveKey p.minimize_protected_inclusions (p.objectiveOf cut)
  passed : s'.aborted = false →
    ∀ y ∈ shortestResidualPath p s₀.included, y ∈ s'.excluded ∨ p.isContainable y = false
  keeps : (∀ x ∈ p.protected_nodes, p.isContainable x = true) → s'.witness = s.witness

section

variable {s₀ : ExactState} {before here rest : List NodeIndex} {x : NodeIndex}

/-- A state within the branching is a node, with the exclusions made here. -/
theorem Progress.node (hp : p.WellFormed) (hn : Node p s₀)
    (hpath : shortestResidualPath p s₀.included = before ++ rest)
    (h : Progress p max_explored_nodes s₀ before here s) : Node p s := by
  have hhere : Node p (s₀.withHere here) := by
    refine ⟨hn.included_eq, hn.weight_eq, hn.protected_eq, hn.nodup, hn.lt, hn.mandatory,
      fun x hx => ?_, fun cut leaf hin hex => hn.traced cut leaf hin fun x hx =>
        hex x (List.mem_append_right _ hx)⟩
    rcases List.mem_append.mp hx with hx | hx
    · have hxp : x ∈ shortestResidualPath p s₀.included := by
        rw [hpath]; exact List.mem_append_left _ (h.fresh x (List.mem_reverse.mp hx)).1
      exact fun hin => (lt_of_mem_residual hp hxp).2 (hn.mem_included.mpr hin)
    · exact hn.disjoint x hx
  exact hhere.frame h.frame

/-- A set under the node that meets no path node passed has no excluded node. -/
theorem Progress.not_mem_of_excluded (h : Progress p max_explored_nodes s₀ before here s)
    {cut : List NodeIndex} (hex : ∀ x ∈ s₀.excluded, x ∉ cut) (hb : ∀ y ∈ before, y ∉ cut) :
    ∀ x ∈ s.excluded, x ∉ cut := by
  intro x hx
  rw [h.frame.excluded] at hx
  rcases List.mem_append.mp hx with hx | hx
  · exact hb x (h.fresh x (List.mem_reverse.mp hx)).1
  · exact hex x hx

/-- Passing a path node that is excluded or may not be contained. -/
theorem Progress.skip (h : Progress p max_explored_nodes s₀ before here s)
    (hskip : x ∈ s.excluded ∨ p.isContainable x = false) :
    Progress p max_explored_nodes s₀ (before ++ [x]) here s where
  frame := h.frame
  fresh y hy := ⟨List.mem_append_left _ (h.fresh y hy).1, (h.fresh y hy).2⟩
  passed y hy := by
    rcases List.mem_append.mp hy with hy | hy
    · exact h.passed y hy
    · exact List.mem_singleton.mp hy ▸ hskip
  found := h.found

/-- Passing a path node by searching with it and excluding it. -/
theorem Progress.exclude (h : Progress p max_explored_nodes s₀ before here s)
    (hf : Frame s s') (hfound : Found p max_explored_nodes s') (hx : x ∉ s.excluded) :
    Progress p max_explored_nodes s₀ (before ++ [x]) (here ++ [x]) (s'.exclude x) where
  frame := by
    have hframe := h.frame.trans hf
    refine ⟨hframe.included, ?_, hframe.current, hframe.current_weight, hframe.current_protected⟩
    simp [ExactState.exclude, hframe.excluded, withHere]
  fresh y hy := by
    rcases List.mem_append.mp hy with hy | hy
    · exact ⟨List.mem_append_left _ (h.fresh y hy).1, (h.fresh y hy).2⟩
    · rw [List.mem_singleton] at hy
      subst hy
      rw [h.frame.excluded] at hx
      exact ⟨by simp, fun hin => hx (List.mem_append_right _ hin)⟩
  passed y hy := by
    rcases List.mem_append.mp hy with hy | hy
    · refine (h.passed y hy).imp_left fun hin => ?_
      rw [← hf.excluded] at hin
      exact List.mem_cons_of_mem _ hin
    · exact Or.inl (List.mem_singleton.mp hy ▸ List.mem_cons_self)
  found := ⟨hfound.best, hfound.witness, hfound.exhausted, hfound.exceeded⟩

end

/-- The branches over the rest of a path do what they should. -/
theorem branch_branched (hp : p.WellFormed) {search : ExactState → ExactState} {depth : ℕ}
    (hsearch : Searches p max_explored_nodes search depth) {s₀ : ExactState} (hn : Node p s₀)
    (hdepth : p.nodeCount + 1 ≤ depth + (s₀.current.length + 1))
    (hne : shortestResidualPath p s₀.included ≠ []) (rest : List NodeIndex) :
    ∀ (before here : List NodeIndex) (s : ExactState),
      shortestResidualPath p s₀.included = before ++ rest →
      Progress p max_explored_nodes s₀ before here s → s.aborted = false →
      Branched p max_explored_nodes s₀ before s (branch p search rest here s).1
        (branch p search rest here s).2 := by
  induction rest with
  | nil =>
    intro before here s hpath h hs
    rw [List.append_nil] at hpath
    refine ⟨h.frame, fun x hx => (h.fresh x hx).2, h.found, Improves.refl _, id, ?_,
      fun _ y hy => h.passed y (hpath ▸ hy), fun _ => rfl⟩
    intro _ cut leaf hacc _ _ hb _ _
    -- Every node of the path was passed, so the set meets no node of it.
    obtain ⟨x, hx, hcut⟩ := hacc.separates.meets hne
    exact absurd hcut (hb x (hpath ▸ hx))
  | cons x rest ih =>
    intro before here s hpath h hs
    have hpath' : shortestResidualPath p s₀.included = (before ++ [x]) ++ rest := by simp [hpath]
    have hns := h.node hp hn hpath
    have hincl : s.included = s₀.included := h.frame.included
    rw [branch]
    by_cases hskip : (decide (x ∈ s.excluded) || !p.isContainable x) = true
    · rw [if_pos hskip]
      simp only [Bool.or_eq_true, decide_eq_true_eq, Bool.not_eq_true'] at hskip
      have h' := ih (before ++ [x]) here s hpath' (h.skip hskip) hs
      refine ⟨h'.frame, h'.fresh, h'.found, h'.improves, h'.sticky, ?_, h'.passed, h'.keeps⟩
      intro hab cut leaf hacc hin hex hb
      refine h'.covers hab cut leaf hacc hin hex fun y hy hycut => ?_
      rcases List.mem_append.mp hy with hy | hy
      · exact hb y hy hycut
      · rw [List.mem_singleton] at hy
        subst hy
        rcases hskip with hskip | hskip
        · exact h.not_mem_of_excluded hex hb y hskip hycut
        · exact absurd (hacc.containable y hycut) (by simp [hskip])
    · rw [if_neg hskip]
      simp only [Bool.or_eq_true, decide_eq_true_eq, Bool.not_eq_true', not_or] at hskip
      have hxcur : x ∉ s.current := fun hin =>
        (lt_of_mem_residual hp (show x ∈ shortestResidualPath p s.included by
          rw [hincl, hpath]; simp)).2 (hns.mem_included.mpr hin)
      have hnx : Node p (s.includeNode p x) :=
        node_includeNode hp hns (by rw [hincl, hpath]) h.passed hskip.1
      have ho := hsearch (s.includeNode p x) hnx
        ⟨h.found.best, h.found.witness, h.found.exhausted, h.found.exceeded⟩ (by
          have hlen : s.current.length = s₀.current.length := by rw [h.frame.current]; rfl
          simp only [includeNode, List.length_append, List.length_singleton]
          omega)
      have hkeeps (hopen : ∀ x ∈ p.protected_nodes, p.isContainable x = true) :
          (search (s.includeNode p x)).witness = s.witness :=
        ho.keeps hopen (by simp [includeNode])
      generalize search (s.includeNode p x) = s₁ at ho hkeeps ⊢
      have hframe : Frame s (s₁.unincludeNode p x) := frame_unincludeNode hns hxcur ho.frame
      have hfound : Found p max_explored_nodes (s₁.unincludeNode p x) :=
        ⟨ho.found.best, ho.found.witness, ho.found.exhausted, ho.found.exceeded⟩
      have hmand : isMandatoryMember p x = false := by
        rw [Bool.eq_false_iff]; exact fun hm => hxcur (hns.mandatory x hm)
      simp only [hmand, Bool.false_eq_true, if_false]
      by_cases hab₁ : s₁.aborted = true
      · rw [if_pos (show (s₁.unincludeNode p x).aborted = true from hab₁)]
        refine ⟨h.frame.trans hframe, fun y hy => (h.fresh y hy).2, hfound, ho.improves, ?_, ?_, ?_,
          hkeeps⟩
        · exact fun hsab => absurd hsab (by simp [hs])
        · exact fun hab => absurd hab (by simp [unincludeNode, hab₁])
        · exact fun hab => absurd hab (by simp [unincludeNode, hab₁])
      · rw [if_neg (show ¬ (s₁.unincludeNode p x).aborted = true from hab₁)]
        have h' := ih (before ++ [x]) (here ++ [x]) ((s₁.unincludeNode p x).exclude x) hpath'
          (h.exclude hframe hfound hskip.1) (by simpa [exclude, unincludeNode] using hab₁)
        refine ⟨h'.frame, h'.fresh, h'.found, ho.improves.trans h'.improves, ?_, ?_, h'.passed,
          fun hopen => (h'.keeps hopen).trans (hkeeps hopen)⟩
        · exact fun hsab => absurd hsab (by simp [hs])
        intro hab cut leaf hacc hin hex hb htr hov
        by_cases hxcut : x ∈ cut
        · have hcov := ho.covers (by simpa using hab₁) cut leaf hacc
            (fun y hy => by
              rcases List.mem_cons.mp hy with rfl | hy
              · exact hxcut
              · exact hin y (hincl ▸ hy))
            (h.not_mem_of_excluded hex hb)
            (by
              have := htr.next hpath hb hxcut
              rwa [← hincl] at this) hov
          obtain ⟨b, hbest, hle⟩ := hcov
          obtain ⟨b', hbest', hle'⟩ := h'.improves b hbest
          exact ⟨b', hbest', le_trans hle' hle⟩
        · refine h'.covers hab cut leaf hacc hin hex (fun y hy => ?_) htr hov
          rcases List.mem_append.mp hy with hy | hy
          · exact hb y hy
          · exact List.mem_singleton.mp hy ▸ hxcut

/-- The nodes excluded at a search node are containable nodes of its path, in order. -/
theorem branch_excluded (search : ExactState → ExactState) (rest here : List NodeIndex)
    (s : ExactState) :
    ∃ more, (branch p search rest here s).2 = here ++ more ∧ more.Sublist rest ∧
      ∀ x ∈ more, p.isContainable x = true := by
  induction rest generalizing here s with
  | nil => exact ⟨[], by simp [branch]⟩
  | cons x rest ih =>
    rw [branch]
    split
    · obtain ⟨more, heq, hsub, hall⟩ := ih here s
      exact ⟨more, heq, hsub.cons x, hall⟩
    · rename_i hskip
      simp only [Bool.or_eq_true, decide_eq_true_eq, Bool.not_eq_true', not_or,
        Bool.not_eq_false] at hskip
      simp only
      split
      · exact ⟨[], by simp⟩
      · split
        · exact ⟨[], by simp⟩
        · obtain ⟨more, heq, hsub, hall⟩ := ih (here ++ [x])
            (((search (s.includeNode p x)).unincludeNode p x).exclude x)
          exact ⟨x :: more, by rw [heq, List.append_assoc]; rfl, hsub.cons_cons x, by
            simpa [hskip.2] using hall⟩

/-! ## The whole search -/

/-- An outcome from a state that differs in its counters. -/
theorem Outcome.of_counters {counters : SolveCounters}
    (h : Outcome p max_explored_nodes { s with counters := counters } s') :
    Outcome p max_explored_nodes s s' where
  frame := ⟨h.frame.included, h.frame.excluded, h.frame.current, h.frame.current_weight,
    h.frame.current_protected⟩
  found := h.found
  improves := h.improves
  sticky := h.sticky
  covers := h.covers
  keeps := h.keeps

/-- Branching over the whole residual path of a node, and clearing its exclusions. -/
theorem outcome_branch (hp : p.WellFormed) {search : ExactState → ExactState} {depth : ℕ}
    (hsearch : Searches p max_explored_nodes search depth) (hn : Node p s)
    (hf : Found p max_explored_nodes s) (hs : s.aborted = false)
    (hdepth : p.nodeCount + 1 ≤ depth + (s.current.length + 1))
    (hne : shortestResidualPath p s.included ≠ []) :
    Outcome p max_explored_nodes s
      (closeBranch ((branch p search (shortestResidualPath p s.included) [] s).1.unexclude
          (branch p search (shortestResidualPath p s.included) [] s).2)
        (shortestResidualPath p s.included)
        (branch p search (shortestResidualPath p s.included) [] s).2) := by
  have hb := branch_branched hp hsearch hn hdepth hne
    (shortestResidualPath p s.included) [] [] s (List.nil_append _).symm
    ⟨Frame.refl s, by simp, by simp, hf⟩ hs
  obtain ⟨more, hmore, hsub, hcont⟩ := branch_excluded (p := p) search
    (shortestResidualPath p s.included) [] s
  rw [List.nil_append] at hmore
  generalize branch p search (shortestResidualPath p s.included) [] s = r at hb hmore ⊢
  obtain ⟨s₁, here⟩ := r
  simp only at hb hmore ⊢
  subst hmore
  have hframe : Frame s (s₁.unexclude here) := by
    refine ⟨hb.frame.included, ?_, hb.frame.current, hb.frame.current_weight,
      hb.frame.current_protected⟩
    simp only [unexclude, hb.frame.excluded, withHere, List.filter_append]
    have h1 : here.reverse.filter (fun node => decide (node ∉ here)) = [] := by
      rw [List.filter_eq_nil_iff]
      intro x hx
      simp [List.mem_reverse.mp hx]
    have h2 : s.excluded.filter (fun node => decide (node ∉ here)) = s.excluded := by
      rw [List.filter_eq_self]
      intro x hx
      simpa using fun hin => hb.fresh x hin hx
    rw [h1, h2, List.nil_append]
  have hcovers : s₁.aborted = false → Covers p s.included s.excluded s₁.best :=
    fun hab cut leaf hacc hin hex htr hov =>
      hb.covers hab cut leaf hacc hin hex (by simp) htr hov
  have hfound : Found p max_explored_nodes (s₁.unexclude here) :=
    ⟨hb.found.best, hb.found.witness, hb.found.exhausted, hb.found.exceeded⟩
  rw [closeBranch]
  split
  · rename_i hclose
    simp only [Bool.and_eq_true, beq_iff_eq, List.isEmpty_iff] at hclose
    obtain ⟨⟨⟨-, hlen⟩, hcur⟩, -⟩ := hclose
    have hcur' : s.current = [] := by rw [← hframe.current]; exact hcur
    have hall : here = shortestResidualPath p s.included := hsub.eq_of_length hlen
    -- The set under construction is empty at the root only, when no source is mandatory.
    have hroot : p.rootIncluded = [] := by
      rw [List.eq_nil_iff_forall_not_mem]
      intro x hx
      have := hn.mandatory x (mem_rootIncluded.mp hx)
      simp [hcur'] at this
    have hincl : s.included = [] := by rw [hn.included_eq, hcur', List.reverse_nil]
    refine ⟨⟨hframe.included, hframe.excluded, hframe.current, hframe.current_weight,
      hframe.current_protected⟩, ⟨hfound.best, fun path hpath => ?_, hfound.exhausted,
      hfound.exceeded⟩, hb.improves, hb.sticky, hcovers, fun _ hcurrent => absurd hcur' hcurrent⟩
    simp only [recordWitness, Option.some.injEq] at hpath
    subst hpath
    exact Or.inr ⟨hroot, by rw [hincl], hne, hall ▸ hcont⟩
  · exact ⟨hframe, hfound, hb.improves, hb.sticky, hcovers, fun hopen _ => hb.keeps hopen⟩

/-- The search does what a search node does, within its depth. -/
theorem search_searches (hp : p.WellFormed) (max_explored_nodes : UInt64) (fuel : ℕ) :
    Searches p max_explored_nodes (search p max_explored_nodes fuel) fuel := by
  induction fuel with
  | zero =>
    intro s hn _ hdepth
    have := hn.length_le
    omega
  | succ fuel ih =>
    intro s hn hf hdepth
    rw [search]
    by_cases hs : s.aborted = true
    · rw [if_pos hs]
      exact ⟨Frame.refl s, hf, Improves.refl _, id, fun h => absurd hs (by simp [h]),
        fun _ _ => rfl⟩
    rw [if_neg hs]
    rw [Bool.not_eq_true] at hs
    have hn₁ : Node p s.explore := hn.frame ⟨rfl, rfl, rfl, rfl, rfl⟩
    have hf₁ : Found p max_explored_nodes s.explore := found_counters hf hs rfl
    have hs₁ : s.explore.aborted = false := hs
    -- from here on only the counters of the state differ
    suffices h : Outcome p max_explored_nodes s.explore _ from Outcome.of_counters (s := s) h
    have hdepth₁ : p.nodeCount + 1 ≤ fuel + (s.explore.current.length + 1) := by
      have : s.explore.current = s.current := rfl
      rw [this]
      omega
    generalize s.explore = s₁ at hn₁ hf₁ hs₁ hdepth₁ ⊢
    clear hn hf hs hdepth
    simp only
    split
    · rename_i hexceed
      exact ⟨⟨rfl, rfl, rfl, rfl, rfl⟩, ⟨hf₁.best, hf₁.witness, rfl, fun _ => hexceed⟩,
        Improves.refl _, fun _ => rfl, by simp [abort], fun _ _ => rfl⟩
    split
    · rename_i hbig
      simp only [Bool.or_eq_true, decide_eq_true_eq] at hbig
      exact outcome_counters hf₁ hs₁ rfl (covers_of_oversized hn₁ hbig _)
    split
    · rename_i hpath
      exact outcome_leaf hp hn₁ hf₁ hpath
    rename_i hpath
    split
    · rename_i hall
      simp only [List.all_eq_true, Bool.not_eq_true'] at hall
      have hcov := covers_of_ineligible hpath hall s₁.best
      split
      · refine ⟨⟨rfl, rfl, rfl, rfl, rfl⟩, ⟨hf₁.best, fun path hrec => ?_, hf₁.exhausted,
          hf₁.exceeded⟩, Improves.refl _, id, fun _ => hcov, fun hopen _ => ?_⟩
        · simp only [recordWitness, Option.some.injEq] at hrec
          exact Or.inl (hrec ▸ witness_of_ineligible hpath hall)
        · obtain ⟨x, hx, hc⟩ := exists_containable hopen hpath
          exact absurd hc (by simp [hall x hx])
      · exact outcome_counters hf₁ hs₁ rfl hcov
    · obtain ⟨⟨counters, hcounters, hstep⟩, hcut⟩ := boundStep_spec hp hn₁
      -- the bound step cuts the branch off, or leaves it to the search below
      generalize boundStep p s₁ = r at hstep hcut ⊢
      obtain ⟨s₂, cut⟩ := r
      simp only at hstep hcut ⊢
      subst hstep
      split
      · rename_i hcut'
        exact outcome_counters hf₁ hs₁ hcounters (hcut hcut')
      · exact Outcome.of_counters (outcome_branch hp ih
          (s := { s₁ with counters := counters }) (hn₁.frame ⟨rfl, rfl, rfl, rfl, rfl⟩)
          (found_counters hf₁ hs₁ hcounters) hs₁ hdepth₁ hpath)

end ExactState

end Fcfn
