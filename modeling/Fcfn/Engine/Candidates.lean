import Fcfn.Engine.PlanFacts

/-!
# Candidates

The candidates are the nodes reached from a source that reach an obligation, and the mandatory
sources. A walk from a source to an obligation runs through candidates only
(`candidate_of_walk`), so what a set holds beside them separates nothing: the set without it is
still accepted, and no worse. -/

namespace Fcfn

open Sorted Walks

namespace ContainmentProblem

variable {graph : PropagationGraph} {spec : ContainmentInstanceSpec} {p : ContainmentProblem}

/-- The backward search stays inside the graph. -/
theorem predecessors_inside (p : ContainmentProblem) :
    ∀ a ∈ Finset.range p.nodeCount, ∀ b ∈ p.graph.conservativePredecessors a,
      b ∈ Finset.range p.nodeCount := fun _ _ _ hb =>
  Finset.mem_range.mpr
    (PropagationGraph.Conservative.lt (PropagationGraph.mem_conservativePredecessors.mp hb)).1

/-- The relevant nodes are those the obligations reach against the edges. -/
theorem mem_relevant (hbuild : build graph spec = .ok p) {i : NodeIndex} :
    i ∈ p.relevant ↔
      Reaches (fun a b => p.graph.Conservative b a) ∅ {x | x ∈ p.protected_nodes} i := by
  have hp := build_wellFormed hbuild
  have hedge : (fun a b => b ∈ p.graph.conservativePredecessors a) =
      fun a b => p.graph.Conservative b a := by
    funext a b
    exact propext PropagationGraph.mem_conservativePredecessors
  have hnil : {y : NodeIndex | y ∈ ([] : List NodeIndex)} = ∅ := by
    ext y
    simp
  rw [relevant_of_build hbuild, computeRelevant,
    Bfs.mem_visited_iff (predecessors_inside p)
      (fun x hx => Finset.mem_range.mpr (hp.protected_lt x hx)) (Finset.card_range _).le,
    hedge, hnil]

/-- The candidates, by how a node becomes one. -/
theorem mem_candidates (hp : p.WellFormed) {i : NodeIndex} :
    i ∈ p.candidates ↔ i < p.nodeCount ∧ (i ∈ p.frontier ∧ i ∈ p.relevant ∨
      p.require_source_inclusion = true ∧ i ∈ p.sources ∧ p.isContainable i = true) := by
  rw [hp.candidates_eq, computeCandidates, List.mem_filter, List.mem_range]
  simp only [isSource, Bool.or_eq_true, Bool.and_eq_true, decide_eq_true_eq, and_assoc]

/-- A walk from a source to an obligation runs through candidates only. -/
theorem candidate_of_walk (hbuild : build graph spec = .ok p) {path : List NodeIndex}
    (hwalk : Walk p.graph.Conservative {x | x ∈ p.sources} {x | x ∈ p.protected_nodes} path) :
    ∀ x ∈ path, x ∈ p.candidates := by
  have hp := build_wellFormed hbuild
  intro x hx
  -- Forwards the walk shows that the node is reached, backwards that it reaches the obligation.
  have hfront : x ∈ p.frontier :=
    (mem_frontier hp).mpr (hwalk.reaches (fun _ _ => Set.notMem_empty _) x hx)
  have hrelevant : x ∈ p.relevant :=
    (mem_relevant hbuild).mpr
      (hwalk.reverse.reaches (fun _ _ => Set.notMem_empty _) x (List.mem_reverse.mpr hx))
  have hlt : x < p.nodeCount :=
    ((mem_frontier hp).mp hfront).rec_on (fun s hs _ => hp.sources_lt s hs)
      fun _ _ _ _ hab _ => (PropagationGraph.Conservative.lt hab).2
  exact (mem_candidates hp).mpr ⟨hlt, Or.inl ⟨hfront, hrelevant⟩⟩

/-- The part of an accepted set that consists of candidates is accepted. -/
theorem Accepts.candidates (hbuild : build graph spec = .ok p) {cut : List NodeIndex}
    (h : p.Accepts cut) : p.Accepts (cut.filter fun x => decide (x ∈ p.candidates)) := by
  have hp := build_wellFormed hbuild
  have hsub : ∀ x ∈ cut.filter (fun x => decide (x ∈ p.candidates)), x ∈ cut :=
    fun x hx => (List.mem_filter.mp hx).1
  have hkeep (x : NodeIndex) (hx : x ∈ cut) (hc : x ∈ p.candidates) :
      x ∈ cut.filter fun x => decide (x ∈ p.candidates) :=
    List.mem_filter.mpr ⟨hx, decide_eq_true hc⟩
  refine ⟨(List.length_filter_le _ _).trans h.size_le, h.nodup.filter _,
    fun x hx => h.lt x (hsub x hx), fun x hx => h.containable x (hsub x hx),
    fun x hx => h.allowed x (hsub x hx), ?_, fun hr s hs hc => ?_, fun path hwalk => ?_⟩
  · have := weight_split (p := p) (h.nodup.filter _) hsub h.nodup
    have := h.weight_le
    omega
  · exact hkeep s (h.sources hr s hs hc)
      ((mem_candidates hp).mpr ⟨hp.sources_lt s hs, Or.inr ⟨hr, hs, hc⟩⟩)
  -- a node that cuts a path lies on a walk from a source to an obligation, so it is a candidate
  · obtain ⟨x, hx, hcut⟩ := h.separates path hwalk
    exact ⟨x, hx, hkeep x hcut (candidate_of_walk hbuild hwalk x hx)⟩

/-- An objective with fewer members and no more weight has a smaller key. -/
theorem objectiveKey_lt_of_subset {cut cut' : List NodeIndex} {m : Bool} (hnd : cut.Nodup)
    (hsub : ∀ x ∈ cut, x ∈ cut') (hnd' : cut'.Nodup) {y : NodeIndex} (hy : y ∈ cut')
    (hout : y ∉ cut) : objectiveKey m (p.objectiveOf cut) < objectiveKey m (p.objectiveOf cut') := by
  refine lt_of_le_of_ne (objectiveKey_mono hnd hsub hnd') fun heq => ?_
  have hlen : cut.length = cut'.length := by
    simp only [objectiveKey, toLex_inj, Prod.mk.injEq, objectiveOf] at heq
    exact heq.2.2.1
  exact hout ((perm_of_length_eq hnd hsub hlen).mem_iff.mpr hy)

/-- Restricting an accepted set to the candidates gives an accepted set that is no worse. So an
accepted set that no accepted set is better than consists of candidates, and so does every residual
path. -/
theorem candidates_suffice (hbuild : build graph spec = .ok p) :
    (∀ cut objective, verifyCut p cut = .ok objective →
      ∃ restricted,
        verifyCut p (cut.filter fun x => decide (x ∈ p.candidates)) = .ok restricted ∧
        ∀ minimize_protected, objectiveLess objective restricted minimize_protected = false) ∧
    (∀ cut objective minimize_protected, verifyCut p cut = .ok objective →
      (∀ other objective', verifyCut p other = .ok objective' →
        objectiveLess objective' objective minimize_protected = false) →
      ∀ x ∈ cut, x ∈ p.candidates) ∧
    ∀ blocked, ∀ x ∈ shortestResidualPath p blocked, x ∈ p.candidates := by
  have hp := build_wellFormed hbuild
  have hsub (cut : List NodeIndex) :
      ∀ x ∈ cut.filter (fun x => decide (x ∈ p.candidates)), x ∈ cut :=
    fun x hx => (List.mem_filter.mp hx).1
  refine ⟨fun cut objective h => ?_, fun cut objective m h hbest x hx => ?_, fun blocked x hx => ?_⟩
  · obtain ⟨hacc, rfl⟩ := (verifyCut_eq_ok_iff hp).mp h
    refine ⟨_, (verifyCut_eq_ok_iff hp).mpr ⟨hacc.candidates hbuild, rfl⟩, fun m => ?_⟩
    rw [Bool.eq_false_iff, ne_eq, objectiveLess_iff, not_lt]
    exact objectiveKey_mono (hacc.nodup.filter _) (hsub cut) hacc.nodup
  · obtain ⟨hacc, rfl⟩ := (verifyCut_eq_ok_iff hp).mp h
    by_contra hout
    -- Without the node the set is accepted and strictly better.
    have hbetter := hbest _ _ ((verifyCut_eq_ok_iff hp).mpr ⟨hacc.candidates hbuild, rfl⟩)
    rw [Bool.eq_false_iff, ne_eq, objectiveLess_iff] at hbetter
    exact hbetter (objectiveKey_lt_of_subset (hacc.nodup.filter _) (hsub cut) hacc.nodup hx
      fun hin => hout (of_decide_eq_true (List.mem_filter.mp hin).2))
  · exact candidate_of_walk hbuild (residual_walk (List.ne_nil_of_mem hx)) x hx

/-- On the chain every node is a candidate, and the relay alone is an accepted set. -/
theorem candidates_suffice_chain :
    verifyCut chainProblem [0] = .ok (chainProblem.objectiveOf [0]) ∧
      ∀ x ∈ shortestResidualPath chainProblem [], x ∈ chainProblem.candidates :=
  ⟨by decide +kernel, (candidates_suffice (eq_ok_value _)).2.2 []⟩

end ContainmentProblem

end Fcfn
