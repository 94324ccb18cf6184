import Fcfn.Engine.ExactSpec

/-!
# Which instances are built

`build` spreads its checks over the loops that fill the marks. Together they are `Checked`, which
says nothing of a resource that is both a failure source and a protected obligation: the sources
are added before any obligation is, so the check for it has no obligation to look at. An obligation
also overwrites the mark of a barred node with the policy's flag. `instances_accepted_iff` says
when an instance meets neither slip. -/

namespace Fcfn

open Sorted Walks

namespace ContainmentProblem

variable {graph : PropagationGraph} {spec : ContainmentInstanceSpec} {p q : ContainmentProblem}

/-- The topology has a node of the resource. -/
def Known (graph : PropagationGraph) (resource : ResourceId) : Prop :=
  ∃ node ∈ graph.topology.nodes, node.id = resource

/-- The checks of `build`. -/
structure Checked (graph : PropagationGraph) (spec : ContainmentInstanceSpec) : Prop where
  sources_ne_nil : spec.failure_sources ≠ []
  obligations_ne_nil : spec.protected_obligations ≠ []
  sources_le : spec.failure_sources.length ≤ kMaxFailureSources
  obligations_le : spec.protected_obligations.length ≤ kMaxProtectedObligations
  members_ne_zero : spec.max_members ≠ 0
  members_le : spec.max_members.toNat ≤ kMaxBoundaryMembers
  bars_known : ∀ r ∈ spec.forced_ineligible, Known graph r
  sources_known : ∀ r ∈ spec.failure_sources, Known graph r
  obligations_known : ∀ r ∈ spec.protected_obligations, Known graph r
  sources_nodup : spec.failure_sources.Nodup
  obligations_nodup : spec.protected_obligations.Nodup

/-- No resource is both a failure source and a protected obligation. -/
def SourcesApart (spec : ContainmentInstanceSpec) : Prop :=
  ∀ r ∈ spec.failure_sources, r ∉ spec.protected_obligations

/-- No forced-ineligible resource is containable. -/
def BarsHold (spec : ContainmentInstanceSpec) (p : ContainmentProblem) : Prop :=
  ∀ r ∈ spec.forced_ineligible, ∀ i, p.graph.topology.find r = some i → p.isContainable i = false

/-! ## Resources and indices -/

/-- A resource of the topology has an index. -/
theorem known_iff {resource : ResourceId} :
    Known graph resource ↔ ∃ i, graph.topology.find resource = some i := by
  rw [Known, ← Option.isSome_iff_exists, ← Option.ne_none_iff_isSome, ne_eq, Topology.find,
    findNode_eq_none]
  push Not
  rfl

/-- The indices of known resources. -/
theorem exists_indices {ids : List ResourceId} (h : ∀ r ∈ ids, Known graph r) :
    ∃ is : List NodeIndex, ids.map graph.topology.find = is.map some := by
  induction ids with
  | nil => exact ⟨[], rfl⟩
  | cons id ids ih =>
    obtain ⟨i, hi⟩ := known_iff.mp (h id (List.mem_cons_self ..))
    obtain ⟨is, his⟩ := ih fun r hr => h r (List.mem_cons_of_mem _ hr)
    exact ⟨i :: is, by rw [List.map_cons, List.map_cons, hi, his]⟩

/-- Resources with indices are known. -/
theorem known_of_indices {ids : List ResourceId} {is : List NodeIndex}
    (h : ids.map graph.topology.find = is.map some) : ∀ r ∈ ids, Known graph r := by
  intro r hr
  have hmem : graph.topology.find r ∈ is.map some := h ▸ List.mem_map.mpr ⟨r, hr, rfl⟩
  obtain ⟨i, -, hi⟩ := List.mem_map.mp hmem
  exact known_iff.mpr ⟨i, hi.symm⟩

/-- Resources are distinct exactly when their indices are. -/
theorem nodup_indices {ids : List ResourceId} {is : List NodeIndex}
    (h : ids.map graph.topology.find = is.map some) : is.Nodup ↔ ids.Nodup := by
  have hinj : ∀ a ∈ ids, ∀ b ∈ ids, graph.topology.find a = graph.topology.find b → a = b := by
    intro a ha b _ hab
    obtain ⟨i, hi⟩ := known_iff.mp (known_of_indices h a ha)
    rw [← find_id hi, find_id (hab ▸ hi)]
  calc is.Nodup ↔ (is.map some).Nodup := (List.nodup_map_iff (Option.some_injective _)).symm
    _ ↔ (ids.map graph.topology.find).Nodup := by rw [h]
    _ ↔ ids.Nodup := ⟨List.Nodup.of_map _, List.Nodup.map_on hinj⟩

/-! ## The loops succeed -/

/-- Known resources can be barred. -/
theorem bars_succeed {ids : List ResourceId} (h : ∀ r ∈ ids, Known p.graph r) :
    ∃ q, ids.foldlM bar p = .ok q := by
  induction ids generalizing p with
  | nil => exact ⟨p, rfl⟩
  | cons id ids ih =>
    obtain ⟨i, hi⟩ := known_iff.mp (h id (List.mem_cons_self ..))
    simp only [List.foldlM_cons, bar, hi]
    exact ih fun r hr => h r (List.mem_cons_of_mem _ hr)

/-- Barred resources are known. -/
theorem known_of_bars {ids : List ResourceId} (h : ids.foldlM bar p = .ok q) :
    ∀ r ∈ ids, Known p.graph r := by
  induction ids generalizing p with
  | nil => simp
  | cons id ids ih =>
    simp only [List.foldlM_cons, bind_eq_ok] at h
    obtain ⟨p', hp', hrest⟩ := h
    obtain ⟨i, hi, rfl⟩ := bar_spec hp'
    intro r hr
    rcases List.mem_cons.mp hr with rfl | hr
    · exact known_iff.mpr ⟨i, hi⟩
    · exact ih hrest r hr

/-- Resources with distinct new indices can be added as sources while there is no obligation. -/
theorem addSources_succeed {ids : List ResourceId} {is : List NodeIndex}
    (hnone : p.protected_nodes = []) (his : ids.map p.graph.topology.find = is.map some)
    (hnd : (p.sources ++ is).Nodup) : ∃ q, ids.foldlM addSource p = .ok q := by
  induction ids generalizing p is with
  | nil => exact ⟨p, rfl⟩
  | cons id ids ih =>
    cases is with
    | nil => simp at his
    | cons i is =>
      rw [List.map_cons, List.map_cons, List.cons.injEq] at his
      have hnew : i ∉ p.sources := fun hin =>
        (List.nodup_append.mp hnd).2.2 i hin i (List.mem_cons_self ..) rfl
      have hstep : addSource p id = .ok { p with sources := p.sources ++ [i] } := by
        simp only [addSource, his.1, require_bind_eq_ok, pure_eq_ok]
        simp [isSource, isProtected, hnew, hnone]
      obtain ⟨q, hq⟩ := ih (p := { p with sources := p.sources ++ [i] }) hnone his.2
        (by simpa using hnd)
      refine ⟨q, ?_⟩
      rw [List.foldlM_cons, bind_eq_ok]
      exact ⟨_, hstep, hq⟩

/-- Resources with distinct new indices can be added as obligations. -/
theorem addObligations_succeed {ids : List ResourceId} {is : List NodeIndex}
    (his : ids.map p.graph.topology.find = is.map some) (hnd : (p.protected_nodes ++ is).Nodup) :
    ∃ q, ids.foldlM addObligation p = .ok q := by
  induction ids generalizing p is with
  | nil => exact ⟨p, rfl⟩
  | cons id ids ih =>
    cases is with
    | nil => simp at his
    | cons i is =>
      rw [List.map_cons, List.map_cons, List.cons.injEq] at his
      have hnew : i ∉ p.protected_nodes := fun hin =>
        (List.nodup_append.mp hnd).2.2 i hin i (List.mem_cons_self ..) rfl
      have hstep : addObligation p id = .ok { p with
          protected_nodes := p.protected_nodes ++ [i]
          containable := p.containable.set i p.allow_protected_inclusion } := by
        simp only [addObligation, his.1, require_bind_eq_ok, pure_eq_ok]
        simp [isProtected, hnew]
      obtain ⟨q, hq⟩ := ih (p := { p with
        protected_nodes := p.protected_nodes ++ [i]
        containable := p.containable.set i p.allow_protected_inclusion }) his.2 (by simpa using hnd)
      refine ⟨q, ?_⟩
      rw [List.foldlM_cons, bind_eq_ok]
      exact ⟨_, hstep, hq⟩

/-- `build` succeeds exactly on the instances that pass its checks. -/
theorem build_succeeds_iff : (∃ p, build graph spec = .ok p) ↔ Checked graph spec := by
  constructor
  · rintro ⟨p, h⟩
    obtain ⟨hsrc, is, his, hprot⟩ := build_indices h
    have hp := build_wellFormed h
    have hbounds := h
    simp only [build, require_bind_eq_ok, bne_iff_ne, decide_eq_true_eq, Bool.and_eq_true]
      at hbounds
    obtain ⟨hs, ho, hsle, hole, hm, -⟩ := hbounds
    obtain ⟨-, -, -, p₁, p₂, p₃, h₁, -, -, -⟩ := build_eq_ok h
    have hnd : is.Nodup := perm_sortBy.nodup_iff.mp (hprot ▸ hp.protected_nodup)
    exact ⟨hs, ho, hsle, hole, hm.1, hm.2, known_of_bars h₁, known_of_indices hsrc,
      known_of_indices his, (nodup_indices hsrc).mp hp.sources_nodup, (nodup_indices his).mp hnd⟩
  · intro h
    obtain ⟨p₁, h₁⟩ := bars_succeed (p := start graph spec) h.bars_known
    obtain ⟨hg, hs, ho⟩ := bars_spec h₁
    obtain ⟨is, his⟩ := exists_indices h.sources_known
    obtain ⟨js, hjs⟩ := exists_indices h.obligations_known
    have hg₁ : p₁.sortBarred.graph = graph := hg
    have hs₁ : p₁.sortBarred.sources = [] := hs
    have ho₁ : p₁.sortBarred.protected_nodes = [] := ho
    obtain ⟨p₂, h₂⟩ := @addSources_succeed p₁.sortBarred spec.failure_sources is ho₁
      (by rw [hg₁]; exact his) (by rw [hs₁]; exact (nodup_indices his).mpr h.sources_nodup)
    obtain ⟨is', -, heq⟩ := addSources_spec h₂
    have hg₂ : p₂.graph = graph := by rw [heq]; exact hg
    have ho₂ : p₂.protected_nodes = [] := by rw [heq]; exact ho
    obtain ⟨p₃, h₃⟩ := @addObligations_succeed p₂ spec.protected_obligations js
      (by rw [hg₂]; exact hjs) (by rw [ho₂]; exact (nodup_indices hjs).mpr h.obligations_nodup)
    refine ⟨p₃.sortProtected.derive spec, ?_⟩
    simp only [build, require_bind_eq_ok, bne_iff_ne, decide_eq_true_eq, Bool.and_eq_true]
    refine ⟨h.sources_ne_nil, h.obligations_ne_nil, h.sources_le, h.obligations_le,
      ⟨h.members_ne_zero, h.members_le⟩, ?_⟩
    simp only [bind_eq_ok, pure_eq_ok]
    exact ⟨p₁, h₁, p₂, h₂, p₃, h₃, rfl⟩

/-! ## The marks of barred nodes -/

/-- The flag of a node after barring: the topology's, unless the node is barred. -/
theorem getD_barredFlags (t : Topology) (barred : List ResourceId) (i : NodeIndex) :
    (barredFlags t barred).getD i false =
      ((t.node i).containable && decide (∀ r ∈ barred, t.find r ≠ some i)) := by
  have hstart : (t.nodes.map NodeSpec.containable).getD i false = (t.node i).containable := by
    rw [Topology.node, List.getD_eq_getElem?_getD, List.getD_eq_getElem?_getD, List.getElem?_map]
    cases t.nodes[i]? <;> rfl
  have hfold : ∀ (ids : List ResourceId) (flags : List Bool), flags.length = t.nodeCount →
      (ids.foldl (fun flags id => ((t.find id).map fun i => flags.set i false).getD flags)
        flags).getD i false = (flags.getD i false && decide (∀ r ∈ ids, t.find r ≠ some i)) := by
    intro ids
    induction ids with
    | nil => simp
    | cons id ids ih =>
      intro flags hlen
      rw [List.foldl_cons]
      cases hfind : t.find id with
      | none =>
        rw [Option.map_none, Option.getD_none, ih flags hlen]
        simp [hfind]
      | some j =>
        rw [Option.map_some, Option.getD_some, ih _ (by rw [List.length_set]; exact hlen),
          getD_set (hlen ▸ find_lt hfind)]
        by_cases hij : j = i
        · simp [hij, hfind]
        · simp [hij, hfind]
  rw [barredFlags, hfold barred _ (by rw [List.length_map]; rfl), hstart]

/-- A barred node is not containable, unless it is an obligation and the policy allows those. -/
theorem isContainable_of_bar (h : build graph spec = .ok p) {r : ResourceId} {i : NodeIndex}
    (hr : r ∈ spec.forced_ineligible) (hi : graph.topology.find r = some i) :
    p.isContainable i = (decide (i ∈ p.protected_nodes) && spec.allow_protected_inclusion) := by
  by_cases hprot : i ∈ p.protected_nodes
  · rw [(build_wellFormed h).containable_protected i hprot, (build_copied h).2.2.1]
    simp [hprot]
  · have hbarred : ¬ ∀ r ∈ spec.forced_ineligible, graph.topology.find r ≠ some i :=
      fun hall => hall r hr hi
    rw [isContainable_of_build h hprot, getD_barredFlags]
    simp [hprot, hbarred]

/-! ## Accepting exactly the valid instances -/

/-- Construction accepts exactly the instances that pass the checks and whose sources are no
obligations, and what it bars may not be contained. -/
def AcceptsExactlyValid (graph : PropagationGraph) (spec : ContainmentInstanceSpec) : Prop :=
  ((∃ p, build graph spec = .ok p) ↔ Checked graph spec ∧ SourcesApart spec) ∧
    ∀ p, build graph spec = .ok p → BarsHold spec p

/-- Exactly the valid instances are accepted, with their bars in force, when an instance that passes
the other checks has no source among its obligations, and has no barred resource among them if the
policy allows obligations to be contained. -/
theorem instances_accepted_iff (graph : PropagationGraph) (spec : ContainmentInstanceSpec) :
    AcceptsExactlyValid graph spec ↔
      (Checked graph spec → SourcesApart spec ∧
        (spec.allow_protected_inclusion = true →
          ∀ r ∈ spec.forced_ineligible, r ∉ spec.protected_obligations)) := by
  constructor
  · rintro ⟨haccepts, hbars⟩ hchecked
    obtain ⟨p, hbuild⟩ := build_succeeds_iff.mpr hchecked
    refine ⟨(haccepts.mp ⟨p, hbuild⟩).2, fun hallow r hr hprot => ?_⟩
    obtain ⟨i, hi⟩ := known_iff.mp (hchecked.bars_known r hr)
    have hmem : i ∈ p.protected_nodes := (mem_protected_of_build hbuild).mpr ⟨r, hprot, hi⟩
    have hg : p.graph = graph := (build_copied hbuild).1
    have hfalse := hbars p hbuild r hr i (by rw [hg]; exact hi)
    rw [isContainable_of_bar hbuild hr hi] at hfalse
    simp [hmem, hallow] at hfalse
  · intro h
    refine ⟨?_, fun p hbuild r hr i hi => ?_⟩
    · rw [build_succeeds_iff]
      exact ⟨fun hchecked => ⟨hchecked, (h hchecked).1⟩, And.left⟩
    · have hchecked := build_succeeds_iff.mp ⟨p, hbuild⟩
      rw [(build_copied hbuild).1] at hi
      rw [isContainable_of_bar hbuild hr hi]
      cases hallow : spec.allow_protected_inclusion with
      | false => simp
      | true =>
        have hout : i ∉ p.protected_nodes := by
          intro hmem
          obtain ⟨r', hr', hi'⟩ := (mem_protected_of_build hbuild).mp hmem
          have hsame : r = r' := by rw [← find_id hi, find_id hi']
          exact (h hchecked).2 hallow r hr (hsame ▸ hr')
        simp [hout]

/-- An instance over the chain whose source is its obligation. -/
def overlappingInstance : ContainmentInstanceSpec :=
  { chainInstance false 9 with protected_obligations := [bytesOf "s"] }

/-- The instance whose source is its obligation is built. -/
theorem overlap_accepted : ¬ AcceptsExactlyValid (.build chain) overlappingInstance := by
  intro h
  have hbuilt : (build (.build chain) overlappingInstance).isOk = true := by decide +kernel
  exact (h.1.mp ⟨_, eq_ok_value hbuilt⟩).2 (bytesOf "s") (by decide) (by decide)

end ContainmentProblem

end Fcfn
