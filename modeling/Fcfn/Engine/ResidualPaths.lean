import Fcfn.Engine.PlanFacts
import Fcfn.Engine.WitnessSearch

/-!
# The canonical residual path

The residual path around a set of nodes exists exactly when the verifier's search reaches an
obligation around the set. It is then a simple path from a source to an obligation that no other
source or obligation lies on, no such path is shorter and, with the sources in ascending order, none
of its length comes before it. The successors of a node are in ascending order since the edges of a
topology are (`pairwise_successors`), so the order of the search is that of the node indices. -/

namespace Fcfn

open Sorted Walks

namespace ContainmentProblem

variable {p : ContainmentProblem} {blocked path : List NodeIndex}

/-- A simple path of the conservative graph from a source to an obligation around the blocked nodes,
with no other source and no other obligation on it. -/
structure ResidualPath (p : ContainmentProblem) (blocked path : List NodeIndex) : Prop where
  walk : Walk p.graph.Conservative {x | x ∈ p.sources} {x | x ∈ p.protected_nodes} path
  unblocked : ∀ x ∈ path, x ∉ blocked
  nodup : path.Nodup
  one_source : ∀ x ∈ path.tail, x ∉ p.sources
  one_obligation : ∀ x ∈ path.dropLast, x ∉ p.protected_nodes

/-- The successors of a node are in ascending order. -/
theorem pairwise_successors (g : PropagationGraph) (node : NodeIndex) :
    (g.conservativeSuccessors node).Pairwise (· < ·) := by
  have hedges := g.topology.valid.edges_ascending
  rw [Ascending, List.pairwise_map] at hedges
  rw [PropagationGraph.conservativeSuccessors, List.pairwise_map]
  refine (hedges.filter _).imp_of_mem fun {e e'} he he' hlt => ?_
  simp only [List.mem_filter, Bool.and_eq_true, beq_iff_eq] at he he'
  -- Both edges leave the same node, so they are ordered by where they lead.
  rw [Edge.key, Edge.key, Prod.Lex.toLex_lt_toLex, he.2.2, he'.2.2] at hlt
  exact hlt.resolve_left (lt_irrefl _) |>.2

/-- An obligation that is no source is a goal of the search. -/
theorem walk_of_disjoint (hdisjoint : ∀ s ∈ p.sources, s ∉ p.protected_nodes)
    (h : Walk p.graph.Conservative {x | x ∈ p.sources} {x | x ∈ p.protected_nodes} path) :
    Walk (fun a b => b ∈ p.graph.conservativeSuccessors a) {x | x ∈ p.sources}
      {x | p.isProtected x = true ∧ x ∉ p.sources} path := by
  obtain ⟨g, hg, hlast⟩ := h.last
  exact ⟨h.chain, h.head, g, ⟨by simpa [isProtected] using hg, fun hs => hdisjoint g hs hg⟩, hlast⟩

/-- The residual path precedes every walk from a source to an obligation around the blocked nodes,
in any order that the sources and all successors are listed in. -/
theorem residual_precedes {r : NodeIndex → NodeIndex → Prop} [IsTrans NodeIndex r]
    (hdisjoint : ∀ s ∈ p.sources, s ∉ p.protected_nodes)
    (hsucc : ∀ a, (p.graph.conservativeSuccessors a).Pairwise r) (hsources : p.sources.Pairwise r)
    (hne : shortestResidualPath p blocked ≠ [])
    (h : Walk p.graph.Conservative {x | x ∈ p.sources} {x | x ∈ p.protected_nodes} path)
    (hout : ∀ x ∈ path, x ∉ blocked) : Bfs.Precedes r (shortestResidualPath p blocked) path :=
  Bfs.shortestPath_precedes hsucc hsources (fun x => by simp [isSource]) hne
    (walk_of_disjoint hdisjoint h) hout

/-- The residual path is no longer than any walk from a source to an obligation around the blocked
nodes. -/
theorem length_residual_le_walk (hdisjoint : ∀ s ∈ p.sources, s ∉ p.protected_nodes)
    (hne : shortestResidualPath p blocked ≠ [])
    (h : Walk p.graph.Conservative {x | x ∈ p.sources} {x | x ∈ p.protected_nodes} path)
    (hout : ∀ x ∈ path, x ∉ blocked) : (shortestResidualPath p blocked).length ≤ path.length := by
  have : IsTrans NodeIndex fun _ _ => True := ⟨fun _ _ _ _ _ => trivial⟩
  have hall (l : List NodeIndex) : l.Pairwise fun _ _ => True := List.pairwise_of_forall fun _ _ => trivial
  exact (residual_precedes (r := fun _ _ => True) hdisjoint (fun _ => hall _) (hall _) hne h
    hout).length_le

/-- With the sources in ascending order the residual path is the first of its length. -/
theorem residual_le_walk (hdisjoint : ∀ s ∈ p.sources, s ∉ p.protected_nodes)
    (hsources : p.sources.Pairwise (· < ·)) (hne : shortestResidualPath p blocked ≠ [])
    (h : Walk p.graph.Conservative {x | x ∈ p.sources} {x | x ∈ p.protected_nodes} path)
    (hout : ∀ x ∈ path, x ∉ blocked) (hlen : path.length = (shortestResidualPath p blocked).length) :
    shortestResidualPath p blocked ≤ path := by
  rcases residual_precedes (r := (· < ·)) hdisjoint (pairwise_successors p.graph) hsources hne h hout
    with heq | hlt
  · exact heq.le
  · exact le_of_lt ((List.shortlex_iff_lex hlen.symm).mp hlt)

/-- A walk up to one of its nodes. -/
theorem walk_upTo {edge : NodeIndex → NodeIndex → Prop} {seeds goals goals' : Set NodeIndex}
    {u v : List NodeIndex} {x : NodeIndex} (h : Walk edge seeds goals (u ++ x :: v))
    (hx : x ∈ goals') : Walk edge seeds goals' (u ++ [x]) := by
  have hsplit : u ++ x :: v = (u ++ [x]) ++ v := by simp
  obtain ⟨s, hs, hhead⟩ := h.head
  rw [hsplit] at hhead
  refine ⟨?_, ⟨s, hs, ?_⟩, x, hx, by simp⟩
  · have hchain := h.chain
    rw [hsplit, List.isChain_append] at hchain
    exact hchain.1
  · rwa [List.head?_append_of_ne_nil _ (by simp)] at hhead

/-- A residual path is a simple path that no other source or obligation lies on. -/
theorem residualPath_shortest (hdisjoint : ∀ s ∈ p.sources, s ∉ p.protected_nodes)
    (hne : shortestResidualPath p blocked ≠ []) :
    ResidualPath p blocked (shortestResidualPath p blocked) := by
  have hpath := residual_path hne
  have hwalk := residual_walk hne
  refine ⟨hwalk, hpath.unblocked, hpath.nodup, hpath.tail, fun x hx hprot => ?_⟩
  -- An obligation before the end would end a shorter path.
  obtain ⟨u, v, hsplit⟩ := List.append_of_mem hx
  have hfull : shortestResidualPath p blocked =
      u ++ x :: (v ++ [(shortestResidualPath p blocked).getLast hne]) := by
    rw [← List.cons_append, ← List.append_assoc, ← hsplit, List.dropLast_concat_getLast]
  have hshort : Walk p.graph.Conservative {x | x ∈ p.sources} {x | x ∈ p.protected_nodes}
      (u ++ [x]) := walk_upTo (hfull ▸ hwalk) hprot
  have hout : ∀ y ∈ u ++ [x], y ∉ blocked := fun y hy => hpath.unblocked y (by
    rw [hfull]
    simp only [List.mem_append, List.mem_cons, List.not_mem_nil, or_false] at hy ⊢
    tauto)
  have hlen := length_residual_le_walk hdisjoint hne hshort hout
  have hlen' := congrArg List.length hfull
  simp only [List.length_append, List.length_cons, List.length_nil] at hlen hlen'
  omega

/-- There is a residual path exactly when the verifier's search reaches an obligation. -/
theorem residual_ne_nil_iff (hp : p.WellFormed) (hdisjoint : ∀ s ∈ p.sources, s ∉ p.protected_nodes) :
    shortestResidualPath p blocked ≠ [] ↔ sourceReachesProtected p blocked = true := by
  rw [← not_iff_not, not_not, Bool.not_eq_true, sourceReachesProtected_eq_false hp,
    separates_iff hp]
  exact ⟨fun h => ⟨h, fun s hs hprot => absurd hprot (hdisjoint s hs)⟩, fun h => h.1⟩

/-- Residual path search is exact and canonical. On a built problem whose sources are no obligations,
whatever is blocked, the solvers' search and the witness search return one path; it is there exactly
when the verifier's search reaches an obligation; it is simple, with no other source or obligation
on it; no walk around the blocked nodes is shorter; and with the sources in ascending order no walk
of its length comes before it. -/
theorem residual_path_canonical {graph : PropagationGraph} {spec : ContainmentInstanceSpec}
    (hbuild : build graph spec = .ok p) (hdisjoint : ∀ s ∈ p.sources, s ∉ p.protected_nodes)
    (blocked : List NodeIndex) :
    witnessPath p blocked = shortestResidualPath p blocked ∧
    (findWitnessPath p blocked).1 = shortestResidualPath p blocked ∧
    (shortestResidualPath p blocked ≠ [] ↔ sourceReachesProtected p blocked = true) ∧
    (shortestResidualPath p blocked ≠ [] →
      ResidualPath p blocked (shortestResidualPath p blocked) ∧
      ∀ path, Walk p.graph.Conservative {x | x ∈ p.sources} {x | x ∈ p.protected_nodes} path →
        (∀ x ∈ path, x ∉ blocked) →
        (shortestResidualPath p blocked).length ≤ path.length ∧
        (p.sources.Pairwise (· < ·) → path.length = (shortestResidualPath p blocked).length →
          shortestResidualPath p blocked ≤ path)) := by
  have hp := build_wellFormed hbuild
  refine ⟨witnessPath_eq hp blocked, rfl, residual_ne_nil_iff hp hdisjoint, fun hne =>
    ⟨residualPath_shortest hdisjoint hne, fun path hwalk hout => ⟨?_, fun hsources hlen => ?_⟩⟩⟩
  · exact length_residual_le_walk hdisjoint hne hwalk hout
  · exact residual_le_walk hdisjoint hsources hne hwalk hout hlen

/-- On the chain the residual path is the chain. -/
theorem residual_path_canonical_chain :
    witnessPath chainProblem [] = [2, 0, 1] ∧
      ∀ path, Walk chainProblem.graph.Conservative {x | x ∈ chainProblem.sources}
        {x | x ∈ chainProblem.protected_nodes} path → 3 ≤ path.length := by
  have hcanonical :=
    residual_path_canonical (p := chainProblem) (eq_ok_value _) (by decide +kernel) []
  have hpath : shortestResidualPath chainProblem [] = [2, 0, 1] := by decide +kernel
  rw [hpath] at hcanonical
  obtain ⟨hwitness, -, -, hleast⟩ := hcanonical
  exact ⟨hwitness, fun path hwalk => ((hleast (by simp)).2 path hwalk (by simp)).1⟩

end ContainmentProblem

end Fcfn
