import Fcfn.Engine.Necessity

/-!
# The order of an instance's lists

The obligations and the barred nodes of a problem are sorted, so their order in the instance is
forgotten: instances that list their sources in the same order build the same problem
(`build_eq_of_reordered`). The sources keep their order. They are written into the digest in it,
and the searches for paths start from them in it, so another order of the sources gives another
digest, unless the digests of the two contents collide, and can give another path. -/

namespace Fcfn

open Words Sorted

namespace ContainmentProblem

variable {graph : PropagationGraph} {spec spec' : ContainmentInstanceSpec} {p p' : ContainmentProblem}

/-- The same instance with its lists in another order. -/
structure Reordered (spec spec' : ContainmentInstanceSpec) : Prop where
  failure_sources : spec.failure_sources.Perm spec'.failure_sources
  protected_obligations : spec.protected_obligations.Perm spec'.protected_obligations
  forced_ineligible : spec.forced_ineligible.Perm spec'.forced_ineligible
  rest : spec' = { spec with
    failure_sources := spec'.failure_sources
    protected_obligations := spec'.protected_obligations
    forced_ineligible := spec'.forced_ineligible }

/-- The checks of `build` do not look at the order of the lists. -/
theorem Checked.reordered (hchecked : Checked graph spec) (h : Reordered spec spec') :
    Checked graph spec' := by
  have hmembers : spec'.max_members = spec.max_members := by rw [h.rest]
  refine ⟨fun hnil => ?_, fun hnil => ?_, ?_, ?_, ?_, ?_, ?_, ?_, ?_, ?_, ?_⟩
  · exact hchecked.sources_ne_nil (hnil ▸ h.failure_sources).eq_nil
  · exact hchecked.obligations_ne_nil (hnil ▸ h.protected_obligations).eq_nil
  · exact h.failure_sources.length_eq ▸ hchecked.sources_le
  · exact h.protected_obligations.length_eq ▸ hchecked.obligations_le
  · exact hmembers ▸ hchecked.members_ne_zero
  · exact hmembers ▸ hchecked.members_le
  · exact fun r hr => hchecked.bars_known r (h.forced_ineligible.mem_iff.mpr hr)
  · exact fun r hr => hchecked.sources_known r (h.failure_sources.mem_iff.mpr hr)
  · exact fun r hr => hchecked.obligations_known r (h.protected_obligations.mem_iff.mpr hr)
  · exact h.failure_sources.nodup_iff.mp hchecked.sources_nodup
  · exact h.protected_obligations.nodup_iff.mp hchecked.obligations_nodup

theorem Reordered.symm (h : Reordered spec spec') : Reordered spec' spec :=
  ⟨h.failure_sources.symm, h.protected_obligations.symm, h.forced_ineligible.symm, by rw [h.rest]⟩

/-! ## The lists that are sorted -/

/-- The barred nodes of a built problem ascend. -/
theorem ascending_barred (h : build graph spec = .ok p) : Ascending id p.barred_nodes := by
  obtain ⟨-, -, -, p₁, p₂, p₃, h₁, h₂, h₃, rfl⟩ := build_eq_ok h
  obtain ⟨is, -, rfl⟩ := addSources_spec h₂
  have hlen₁ := ((Indexed.start graph spec).bars rfl h₁).containable_length
  obtain ⟨js, -, c, -, rfl⟩ := addObligations_spec h₃ hlen₁
  have hsorted : ((sortBy id p₁.barred_nodes).map id).Pairwise (· ≤ ·) := pairwise_sortBy
  refine ascending_of_isChain ?_ (List.Pairwise.isChain (List.nodup_dedup _))
  exact hsorted.sublist ((List.dedup_sublist _).map id)

/-- The digest of a built problem. -/
theorem digest_of_build (h : build graph spec = .ok p) :
    p.instance_digest = p.computeDigest spec := by
  obtain ⟨-, -, -, p₁, p₂, p₃, -, -, -, rfl⟩ := build_eq_ok h
  rfl

/-- Two problems of one graph have the same flags when they have the same obligations, bars and
policy. -/
theorem containable_eq (h : build graph spec = .ok p) (h' : build graph spec' = .ok p')
    (hprotected : p.protected_nodes = p'.protected_nodes) (hbarred : p.barred_nodes = p'.barred_nodes)
    (hallow : p.allow_protected_inclusion = p'.allow_protected_inclusion) :
    p.containable = p'.containable := by
  have hp := build_wellFormed h
  have hp' := build_wellFormed h'
  have hflag : ∀ i, p.isContainable i = p'.isContainable i := by
    intro i
    by_cases hi : i ∈ p.protected_nodes
    · rw [hp.containable_protected i hi, hp'.containable_protected i (hprotected ▸ hi), hallow]
    · rw [isContainable_iff_of_build h hi, isContainable_iff_of_build h' (hprotected ▸ hi), hbarred]
  have hlength : p.containable.length = p'.containable.length := by
    rw [hp.containable_length, hp'.containable_length, nodeCount, nodeCount, (build_copied h).1,
      (build_copied h').1]
  refine List.ext_getElem hlength fun i hi hi' => ?_
  have hget := hflag i
  rw [isContainable, isContainable, List.getD_eq_getElem?_getD, List.getD_eq_getElem?_getD,
    List.getElem?_eq_getElem hi, List.getElem?_eq_getElem hi'] at hget
  exact hget

/-- Instances that list their sources in the same order build the same problem. -/
theorem build_eq_of_reordered (hreordered : Reordered spec spec')
    (hsources : spec'.failure_sources = spec.failure_sources) (h : build graph spec = .ok p)
    (h' : build graph spec' = .ok p') : p = p' := by
  have hp := build_wellFormed h
  have hp' := build_wellFormed h'
  obtain ⟨hgraph, hrequire, hallow, hminimize, hweight, hmembers⟩ := build_copied h
  obtain ⟨hgraph', hrequire', hallow', hminimize', hweight', hmembers'⟩ := build_copied h'
  rw [hreordered.rest] at hrequire' hallow' hminimize' hweight' hmembers'
  have hg : p.graph = p'.graph := hgraph.trans hgraph'.symm
  have hr : p.require_source_inclusion = p'.require_source_inclusion :=
    hrequire.trans hrequire'.symm
  have ha : p.allow_protected_inclusion = p'.allow_protected_inclusion := hallow.trans hallow'.symm
  have hs : p.sources = p'.sources := by
    refine List.map_injective_iff.mpr (Option.some_injective _) ?_
    calc p.sources.map some = spec.failure_sources.map graph.topology.find :=
          (build_indices h).1.symm
      _ = spec'.failure_sources.map graph.topology.find := by rw [hsources]
      _ = p'.sources.map some := (build_indices h').1
  have ho : p.protected_nodes = p'.protected_nodes := by
    refine (ascending_protected h).eq_of_mem_iff (ascending_protected h') fun i => ?_
    rw [mem_protected_of_build h, mem_protected_of_build h']
    simp only [hreordered.protected_obligations.mem_iff]
  have hb : p.barred_nodes = p'.barred_nodes := by
    refine (ascending_barred h).eq_of_mem_iff (ascending_barred h') fun i => ?_
    rw [mem_barred_of_build h, mem_barred_of_build h']
    simp only [hreordered.forced_ineligible.mem_iff]
  have hc : p.containable = p'.containable := containable_eq h h' ho hb ha
  have hu : p.uncontainable_sources = p'.uncontainable_sources := by
    rw [hp.uncontainable_eq, hp'.uncontainable_eq, hs]
    simp only [isContainable, hc]
  have hf : p.frontier = p'.frontier := by
    rw [hp.frontier_eq, hp'.frontier_eq, computeFrontier, computeFrontier, nodeCount, nodeCount, hg,
      hs]
  have hrel : p.relevant = p'.relevant := by
    rw [relevant_of_build h, relevant_of_build h', computeRelevant, computeRelevant, nodeCount,
      nodeCount, hg, ho]
  have hcand : p.candidates = p'.candidates := by
    rw [hp.candidates_eq, hp'.candidates_eq, computeCandidates, computeCandidates]
    simp only [nodeCount, isSource, isContainable, hg, hs, hc, hf, hrel, hr]
  have hd : p.instance_digest = p'.instance_digest := by
    rw [digest_of_build h, digest_of_build h', computeDigest, computeDigest, hsources,
      hreordered.protected_obligations.length_eq, hreordered.rest]
    simp only [weight, hg, hs, ho, hu, hcand, hb]
  cases p
  cases p'
  simp only [mk.injEq]
  exact ⟨hg, hs, ho, hcand, hu, hb, hf, hrel, hc, hr, ha, hminimize.trans hminimize'.symm,
    hweight.trans hweight'.symm, hmembers.trans hmembers'.symm, hd⟩

/-! ## The order of the sources in the digest -/

/-- The bytes that the digest of a problem is of. -/
def instanceContent (p : ContainmentProblem) (spec : ContainmentInstanceSpec) : Bytes :=
  Write.digest p.graph.topology.definitionDigest ++
  Write.size spec.failure_sources.length ++ p.sources.flatMap Write.size ++
  Write.size spec.protected_obligations.length ++ p.protected_nodes.flatMap Write.size ++
  Write.size p.uncontainable_sources.length ++ p.uncontainable_sources.flatMap Write.size ++
  Write.size p.candidates.length ++
  p.candidates.flatMap (fun c => Write.size c ++ Write.u64 (UInt64.ofNat (p.weight c))) ++
  Write.size p.barred_nodes.length ++ p.barred_nodes.flatMap Write.size ++
  Write.boolean spec.require_source_inclusion ++ Write.boolean spec.allow_protected_inclusion ++
  Write.boolean spec.minimize_protected_inclusions ++ Write.u64 spec.max_total_weight ++
  Write.u64 spec.max_members

theorem computeDigest_eq (p : ContainmentProblem) (spec : ContainmentInstanceSpec) :
    p.computeDigest spec = digestOf (instanceContent p spec) := rfl

/-- Lists of sizes of 32 bits are told apart by their bytes. -/
theorem flatMap_size_injective {l l' : List ℕ} (hlength : l.length = l'.length)
    (hl : ∀ n ∈ l, n < 2 ^ 32) (hl' : ∀ n ∈ l', n < 2 ^ 32)
    (h : l.flatMap Write.size = l'.flatMap Write.size) : l = l' := by
  induction l generalizing l' with
  | nil => exact (List.length_eq_zero_iff.mp hlength.symm).symm
  | cons n l ih =>
    cases l' with
    | nil => simp at hlength
    | cons m l' =>
      rw [List.flatMap_cons, List.flatMap_cons] at h
      obtain ⟨hhead, htail⟩ := List.append_inj h (by simp [Write.size, Write.u32, le32])
      have hword : UInt32.ofNat n = UInt32.ofNat m := by
        rw [← ofLe_le32 (UInt32.ofNat n), ← ofLe_le32 (UInt32.ofNat m)]
        exact congrArg (fun bytes => UInt32.ofNat (ofLe bytes)) hhead
      have hnm : n = m := by
        rw [← toNat_size (hl n (List.mem_cons_self ..)), hword,
          toNat_size (hl' m (List.mem_cons_self ..))]
      rw [hnm, ih (Nat.succ.inj hlength) (fun k hk => hl k (List.mem_cons_of_mem _ hk))
        (fun k hk => hl' k (List.mem_cons_of_mem _ hk)) htail]

/-- The sources of a built problem are words of 32 bits. -/
theorem sources_lt_of_build (h : build graph spec = .ok p) : ∀ s ∈ p.sources, s < 2 ^ 32 := by
  intro s hs
  have hlt : s < p.graph.topology.nodes.length := (build_wellFormed h).sources_lt s hs
  have hle : p.graph.topology.nodes.length ≤ kMaxTopologyNodes := p.graph.topology.valid.nodes_le
  have hbound : kMaxTopologyNodes < 2 ^ 32 := by decide
  exact lt_of_lt_of_le hlt (hle.trans hbound.le)

/-- Problems of reordered instances whose contents are the same have the sources in the same
order. -/
theorem sources_eq_of_content (hreordered : Reordered spec spec') (h : build graph spec = .ok p)
    (h' : build graph spec' = .ok p') (hcontent : instanceContent p spec = instanceContent p' spec') :
    spec'.failure_sources = spec.failure_sources := by
  have hindices := (build_indices h).1
  have hindices' := (build_indices h').1
  have hlength : p.sources.length = p'.sources.length := by
    have hlen := congrArg List.length hindices
    have hlen' := congrArg List.length hindices'
    rw [List.length_map, List.length_map] at hlen hlen'
    rw [← hlen, ← hlen', hreordered.failure_sources.length_eq]
  -- the sources come right after a part that the two contents share
  have hsources : p.sources.flatMap Write.size = p'.sources.flatMap Write.size := by
    have hbytes : ∀ l : List NodeIndex, (l.flatMap Write.size).length = 4 * l.length := by
      intro l
      induction l with
      | nil => rfl
      | cons n l ih => simp [ih, Write.size, Write.u32, le32]; omega
    simp only [instanceContent, List.append_assoc, (build_copied h).1, (build_copied h').1,
      hreordered.failure_sources.length_eq, List.append_cancel_left_eq] at hcontent
    exact (List.append_inj hcontent (by rw [hbytes, hbytes, hlength])).1
  have hsame : p.sources = p'.sources :=
    flatMap_size_injective hlength (sources_lt_of_build h) (sources_lt_of_build h') hsources
  have hfind : spec'.failure_sources.map graph.topology.find =
      spec.failure_sources.map graph.topology.find := by
    rw [hindices, hindices', hsame]
  refine List.ext_getElem hreordered.failure_sources.length_eq.symm fun i hi hi' => ?_
  have hget : graph.topology.find spec'.failure_sources[i] =
      graph.topology.find spec.failure_sources[i] := by
    have hat := congrArg (fun l : List (Option NodeIndex) => l[i]?) hfind
    simpa [List.getElem?_map, List.getElem?_eq_getElem hi, List.getElem?_eq_getElem hi'] using hat
  obtain ⟨j, hj⟩ := known_iff.mp (known_of_indices hindices _ (List.getElem_mem hi'))
  rw [← find_id hj, find_id (hget.trans hj)]

/-! ## What the order of the lists decides -/

/-- The instances are built or refused alike, and the problems have the same digest and get the same
answers from `solve`. -/
structure OrderFree (graph : PropagationGraph) (spec spec' : ContainmentInstanceSpec) : Prop where
  built : (∃ p, build graph spec = .ok p) ↔ ∃ p', build graph spec' = .ok p'
  digest : ∀ p p', build graph spec = .ok p → build graph spec' = .ok p' →
    p.instance_digest = p'.instance_digest
  answers : ∀ p p', build graph spec = .ok p → build graph spec' = .ok p' →
    ∀ (budget : SolveBudget) (exact_node_limit : ℕ),
      (solve p budget exact_node_limit).status = (solve p' budget exact_node_limit).status ∧
      (solve p budget exact_node_limit).members = (solve p' budget exact_node_limit).members ∧
      (solve p budget exact_node_limit).objective = (solve p' budget exact_node_limit).objective ∧
      (solve p budget exact_node_limit).infeasibility_path =
        (solve p' budget exact_node_limit).infeasibility_path

/-- An instance that is built lists its failure sources in the same order. -/
def SourcesInOrder (graph : PropagationGraph) (spec spec' : ContainmentInstanceSpec) : Prop :=
  Checked graph spec → spec'.failure_sources = spec.failure_sources

/-- The digests of the two problems are equal though their contents differ. -/
def ContentsCollide (graph : PropagationGraph) (spec spec' : ContainmentInstanceSpec) : Prop :=
  ∃ p p', build graph spec = .ok p ∧ build graph spec' = .ok p' ∧
    instanceContent p spec ≠ instanceContent p' spec' ∧
    digestOf (instanceContent p spec) = digestOf (instanceContent p' spec')

/-- The order of an instance's lists does not matter when the sources keep theirs; another order of
the sources matters unless it gives a collision of the digest. -/
theorem order_free_iff (hreordered : Reordered spec spec') :
    (SourcesInOrder graph spec spec' → OrderFree graph spec spec') ∧
    (OrderFree graph spec spec' →
      SourcesInOrder graph spec spec' ∨ ContentsCollide graph spec spec') := by
  have hbuilt : (∃ p, build graph spec = .ok p) ↔ ∃ p', build graph spec' = .ok p' := by
    rw [build_succeeds_iff, build_succeeds_iff]
    exact ⟨fun h => h.reordered hreordered, fun h => h.reordered hreordered.symm⟩
  constructor
  · intro hsources
    have hsame : ∀ p p', build graph spec = .ok p → build graph spec' = .ok p' → p = p' :=
      fun p p' h h' =>
        build_eq_of_reordered hreordered (hsources (build_succeeds_iff.mp ⟨p, h⟩)) h h'
    refine ⟨hbuilt, fun p p' h h' => ?_, fun p p' h h' budget limit => ?_⟩
    · rw [hsame p p' h h']
    · rw [hsame p p' h h']
      exact ⟨rfl, rfl, rfl, rfl⟩
  · intro hfree
    by_cases hchecked : Checked graph spec
    · obtain ⟨p, h⟩ := build_succeeds_iff.mpr hchecked
      obtain ⟨p', h'⟩ := hbuilt.mp ⟨p, h⟩
      by_cases hcontent : instanceContent p spec = instanceContent p' spec'
      · exact Or.inl fun _ => sources_eq_of_content hreordered h h' hcontent
      · refine Or.inr ⟨p, p', h, h', hcontent, ?_⟩
        rw [← computeDigest_eq, ← computeDigest_eq, ← digest_of_build h, ← digest_of_build h']
        exact hfree.digest p p' h h'
    · exact Or.inl fun h => absurd h hchecked

/-! ## Two sources in the two orders -/

/-- Two resources that may not be contained and act on one obligation. -/
def twoRoots : Topology :=
  value (Topology.build ⟨1, [⟨bytesOf "s", false, 1, false, .complete⟩,
    ⟨bytesOf "u", false, 1, false, .complete⟩, ⟨bytesOf "p", false, 1, true, .complete⟩],
    [⟨bytesOf "s", bytesOf "p", .proven, 1⟩, ⟨bytesOf "u", bytesOf "p", .proven, 1⟩]⟩)
    (by decide +kernel)

/-- The instance whose failure sources are the two resources, in a given order. -/
def twoRootsInstance (failure_sources : List ResourceId) : ContainmentInstanceSpec :=
  { chainInstance false 9 with failure_sources := failure_sources }

/-- The problem whose sources are given in the order of their identities. -/
def forwardProblem : ContainmentProblem :=
  value (build (.build twoRoots) (twoRootsInstance [bytesOf "s", bytesOf "u"])) (by decide +kernel)

/-- The problem whose sources are given the other way round. -/
def backwardProblem : ContainmentProblem :=
  value (build (.build twoRoots) (twoRootsInstance [bytesOf "u", bytesOf "s"])) (by decide +kernel)

/-- The order of the sources decides which of two paths certifies infeasibility. -/
theorem sources_order_leaks :
    Reordered (twoRootsInstance [bytesOf "s", bytesOf "u"])
      (twoRootsInstance [bytesOf "u", bytesOf "s"]) ∧
    ¬ OrderFree (.build twoRoots) (twoRootsInstance [bytesOf "s", bytesOf "u"])
      (twoRootsInstance [bytesOf "u", bytesOf "s"]) := by
  refine ⟨⟨List.Perm.swap .., .refl _, .refl _, rfl⟩, fun h => ?_⟩
  have hpath := (h.answers forwardProblem backwardProblem (eq_ok_value _) (eq_ok_value _)
    ⟨1000, 1000⟩ 10).2.2.2
  exact absurd hpath (by decide +kernel)

/-- The instance over the chain with two obligations and two bars, in given orders. -/
def chainListing (protected_obligations forced_ineligible : List ResourceId) :
    ContainmentInstanceSpec :=
  { chainInstance false 9 with
    protected_obligations := protected_obligations
    forced_ineligible := forced_ineligible }

/-- The order of the obligations and bars of the chain does not matter. -/
theorem order_free_chain :
    OrderFree (.build chain)
      (chainListing [bytesOf "p", bytesOf "a"] [bytesOf "s", bytesOf "a"])
      (chainListing [bytesOf "a", bytesOf "p"] [bytesOf "a", bytesOf "s"]) :=
  (@order_free_iff _ (chainListing [bytesOf "p", bytesOf "a"] [bytesOf "s", bytesOf "a"])
    (chainListing [bytesOf "a", bytesOf "p"] [bytesOf "a", bytesOf "s"])
    ⟨.refl _, List.Perm.swap .., List.Perm.swap .., rfl⟩).1 fun _ => rfl

end ContainmentProblem

end Fcfn
