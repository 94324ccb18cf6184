import Fcfn.Lib.Shortest
import Fcfn.Engine.Residual

/-!
# The witness search on vectors

The source writes the residual search twice, for the solvers and for the witness paths of a
boundary, each time over vectors with a place for every node. Here the second one is kept as it is
written, with its mark vectors, its parent vector and its loops; it runs in step with the search on
lists of marks (`Simulates`), so both return the same path (`witnessPath_eq`). -/

namespace Fcfn

namespace ContainmentProblem

/-! ## The search -/

/-- The vectors, the queue and the target of the search. The invalid index is `none`. -/
structure WitnessSearch where
  seen : List Bool
  parent : List (Option NodeIndex)
  queue : List NodeIndex
  target : Option NodeIndex

/-- A vector with a mark at each of the nodes. -/
def mark (n : ℕ) (nodes : List NodeIndex) : List Bool :=
  nodes.foldl (fun marks node => marks.set node true) (List.replicate n false)

/-- Queue a source that is neither blocked nor seen. -/
def queueSource (blocked : List Bool) (v : WitnessSearch) (source : NodeIndex) : WitnessSearch :=
  if !blocked.getD source false && !v.seen.getD source false then
    { v with seen := v.seen.set source true, queue := v.queue ++ [source] }
  else v

/-- Look at the successors of a node, up to the first obligation among them. -/
def visitSuccessors (p : ContainmentProblem) (blocked : List Bool) (node : NodeIndex) :
    List NodeIndex → WitnessSearch → WitnessSearch
  | [], v => v
  | next :: rest, v =>
    if blocked.getD next false || v.seen.getD next false then
      visitSuccessors p blocked node rest v
    else
      let v := { v with
        seen := v.seen.set next true
        parent := v.parent.set next (some node) }
      if p.isProtected next then { v with target := some next }
      else visitSuccessors p blocked node rest { v with queue := v.queue ++ [next] }

/-- Search until there is a target or the queue is empty. -/
def searchWitness (p : ContainmentProblem) (blocked : List Bool) :
    ℕ → WitnessSearch → WitnessSearch
  | 0, v => v
  | fuel + 1, v =>
    match v.queue, v.target with
    | node :: queue, none =>
      searchWitness p blocked fuel
        (visitSuccessors p blocked node (p.graph.conservativeSuccessors node)
          { v with queue := queue })
    | _, _ => v

/-- The nodes from an index back along the parents to the first source. -/
def followParents (p : ContainmentProblem) (parent : List (Option NodeIndex)) :
    ℕ → Option NodeIndex → List NodeIndex
  | 0, _ => []
  | _ + 1, none => []
  | fuel + 1, some node =>
    node :: if p.isSource node then [] else followParents p parent fuel (parent.getD node none)

/-- The path of the witness search. -/
def witnessPath (p : ContainmentProblem) (excluded : List NodeIndex) : List NodeIndex :=
  let blocked := mark p.nodeCount excluded
  let v : WitnessSearch :=
    ⟨List.replicate p.nodeCount false, List.replicate p.nodeCount none, [], none⟩
  let v := searchWitness p blocked p.nodeCount (p.sources.foldl (queueSource blocked) v)
  match v.target with
  | none => []
  | some target => (followParents p v.parent (p.nodeCount + 1) (some target)).reverse

/-! ## The vectors and the lists of marks -/

/-- A vector of marks and the list of the marked nodes. -/
def Marked (n : ℕ) (marks : List Bool) (nodes : List NodeIndex) : Prop :=
  marks.length = n ∧ ∀ x < n, marks.getD x false = decide (x ∈ nodes)

/-- No mark is set at first. -/
theorem marked_replicate (n : ℕ) : Marked n (List.replicate n false) [] := by
  refine ⟨List.length_replicate, fun x hx => ?_⟩
  rw [List.getD_eq_getElem?_getD, List.getElem?_replicate, if_pos hx]
  simp

/-- One more mark. -/
theorem Marked.set {n : ℕ} {marks : List Bool} {nodes : List NodeIndex} {node : NodeIndex}
    (h : Marked n marks nodes) (hnode : node < n) : Marked n (marks.set node true) (node :: nodes) := by
  refine ⟨by rw [List.length_set, h.1], fun x hx => ?_⟩
  rw [getD_set (h.1.symm ▸ hnode), h.2 x hx]
  by_cases hxn : node = x
  · simp [hxn]
  · simp [hxn, Ne.symm hxn]

/-- Marking a list of nodes marks those that have a place. -/
theorem marked_mark (n : ℕ) (nodes : List NodeIndex) : Marked n (mark n nodes) nodes := by
  -- the loop marks the nodes in turn, so the induction needs any marks that were set before
  suffices h : ∀ marks done, Marked n marks done →
      Marked n (nodes.foldl (fun marks node => marks.set node true) marks) (nodes.reverse ++ done) by
    have hmark := h _ _ (marked_replicate n)
    rw [List.append_nil] at hmark
    refine ⟨hmark.1, fun x hx => ?_⟩
    rw [mark, hmark.2 x hx]
    simp
  induction nodes with
  | nil => exact fun _ _ h => h
  | cons node nodes ih =>
    intro marks done h
    rw [List.foldl_cons, List.reverse_cons, List.append_assoc, List.singleton_append]
    refine ih _ _ ?_
    rcases Nat.lt_or_ge node n with hnode | hnode
    · exact h.set hnode
    · -- A node without a place leaves the vector as it is.
      rw [List.set_eq_of_length_le (h.1.symm ▸ hnode)]
      refine ⟨h.1, fun x hx => ?_⟩
      have hne : x ≠ node := by omega
      rw [h.2 x hx]
      simp [hne]

/-- The vectors of a search and the marks that stand for them. -/
structure Simulates (n : ℕ) (v : WitnessSearch) (m : Bfs.Marks NodeIndex) : Prop where
  seen : Marked n v.seen m.seen
  length : v.parent.length = n
  parent : ∀ x < n, v.parent.getD x none = m.parent.lookup x
  queue : v.queue = m.queue

section Search

variable {p : ContainmentProblem} {blocked : List Bool} {excluded : List NodeIndex}
  {v : WitnessSearch} {m : Bfs.Marks NodeIndex}

/-- The loop over the sources queues what the list search queues. -/
theorem Simulates.sources (hblocked : Marked p.nodeCount blocked excluded) {sources : List NodeIndex}
    (hlt : ∀ s ∈ sources, s < p.nodeCount) (h : Simulates p.nodeCount v m) :
    Simulates p.nodeCount (sources.foldl (queueSource blocked) v)
      ⟨(Bfs.discover excluded sources (m.seen, m.queue)).1,
        (Bfs.discover excluded sources (m.seen, m.queue)).2, m.parent⟩ ∧
      (sources.foldl (queueSource blocked) v).target = v.target := by
  induction sources generalizing v m with
  | nil => exact ⟨h, rfl⟩
  | cons source sources ih =>
    have hsource := hlt source (by simp)
    have hrest : ∀ s ∈ sources, s < p.nodeCount := fun s hs => hlt s (List.mem_cons_of_mem _ hs)
    rw [List.foldl_cons, Bfs.discover, queueSource, hblocked.2 source hsource,
      h.seen.2 source hsource]
    -- a source that is excluded or was seen is not queued in either search
    by_cases hskip : source ∈ excluded ∨ source ∈ m.seen
    · rw [if_pos hskip, if_neg (by simpa using or_iff_not_imp_left.mp hskip)]
      exact ih hrest h
    · rw [if_neg hskip, if_pos (by simpa using hskip)]
      exact ih hrest (m := ⟨source :: m.seen, m.queue ++ [source], m.parent⟩)
        ⟨h.seen.set hsource, h.length, h.parent, by rw [h.queue]⟩

/-- The loop over the successors is the scan. -/
theorem Simulates.visit (hblocked : Marked p.nodeCount blocked excluded) (node : NodeIndex)
    {nexts : List NodeIndex} (hlt : ∀ x ∈ nexts, x < p.nodeCount) (h : Simulates p.nodeCount v m)
    (htarget : v.target = none) :
    Simulates p.nodeCount (visitSuccessors p blocked node nexts v)
      (Bfs.scan excluded p.isProtected node nexts m).1 ∧
      (visitSuccessors p blocked node nexts v).target =
        (Bfs.scan excluded p.isProtected node nexts m).2 := by
  induction nexts generalizing v m with
  | nil => exact ⟨h, htarget⟩
  | cons next rest ih =>
    have hnext := hlt next (by simp)
    have hrest : ∀ x ∈ rest, x < p.nodeCount := fun x hx => hlt x (List.mem_cons_of_mem _ hx)
    rw [visitSuccessors, Bfs.scan, hblocked.2 next hnext, h.seen.2 next hnext]
    by_cases hskip : next ∈ excluded ∨ next ∈ m.seen
    · rw [if_pos hskip, if_pos (by simpa using hskip)]
      exact ih hrest h htarget
    · rw [if_neg hskip, if_neg (by simpa using hskip)]
      -- a write to the vector is an entry before the older ones of the record
      have hparent : ∀ x < p.nodeCount, (v.parent.set next (some node)).getD x none =
          ((next, node) :: m.parent).lookup x := by
        intro x hx
        rw [getD_set (h.length.symm ▸ hnext), List.lookup_cons, h.parent x hx]
        by_cases hxn : next = x
        · simp [hxn]
        · rw [if_neg hxn, beq_false_of_ne (Ne.symm hxn)]
      have hlength : (v.parent.set next (some node)).length = p.nodeCount := by
        rw [List.length_set, h.length]
      simp only
      split
      · exact ⟨⟨h.seen.set hnext, hlength, hparent, h.queue⟩, rfl⟩
      · exact ih hrest ⟨h.seen.set hnext, hlength, hparent, by rw [h.queue]⟩ htarget

/-- A search that has a target is over. -/
theorem searchWitness_of_target (fuel : ℕ) {target : NodeIndex} (h : v.target = some target) :
    searchWitness p blocked fuel v = v := by
  cases fuel with
  | zero => rfl
  | succ fuel =>
    rw [searchWitness, h]
    cases v.queue <;> rfl

/-- The search on vectors runs in step with the search on marks. -/
theorem Simulates.search (hblocked : Marked p.nodeCount blocked excluded) (fuel : ℕ)
    (h : Simulates p.nodeCount v m) (htarget : v.target = none) :
    Simulates p.nodeCount (searchWitness p blocked fuel v)
      (Bfs.search p.graph.conservativeSuccessors excluded p.isProtected fuel m).1 ∧
      (searchWitness p blocked fuel v).target =
        (Bfs.search p.graph.conservativeSuccessors excluded p.isProtected fuel m).2 := by
  induction fuel generalizing v m with
  | zero => exact ⟨h, htarget⟩
  | succ fuel ih =>
    obtain ⟨seen, queue, parent⟩ := m
    cases queue with
    | nil =>
      have hv : searchWitness p blocked (fuel + 1) v = v := by
        rw [searchWitness, h.queue]
      rw [hv]
      exact ⟨h, htarget⟩
    | cons node queue =>
      have hv : searchWitness p blocked (fuel + 1) v = searchWitness p blocked fuel
          (visitSuccessors p blocked node (p.graph.conservativeSuccessors node)
            { v with queue := queue }) := by
        rw [searchWitness, h.queue, htarget]
      have hlt : ∀ x ∈ p.graph.conservativeSuccessors node, x < p.nodeCount :=
        fun x hx => (PropagationGraph.Conservative.lt hx).2
      have hvisit := Simulates.visit (v := { v with queue := queue }) (m := ⟨seen, queue, parent⟩)
        hblocked node hlt ⟨h.seen, h.length, h.parent, rfl⟩ htarget
      rw [hv, Bfs.search]
      -- a target ends both searches in the same round
      generalize Bfs.scan excluded p.isProtected node (p.graph.conservativeSuccessors node)
        ⟨seen, queue, parent⟩ = c at hvisit ⊢
      obtain ⟨m', target⟩ := c
      cases target with
      | none => exact ih hvisit.1 hvisit.2
      | some target =>
        rw [searchWitness_of_target fuel hvisit.2]
        exact hvisit

/-- Following the parent vector walks back over the record. -/
theorem Simulates.followParents (h : Simulates p.nodeCount v m) {roots : List NodeIndex}
    (hrec : Bfs.Recorded p.graph.conservativeSuccessors excluded roots m.parent) (fuel : ℕ)
    {x : NodeIndex} (hx : x < p.nodeCount) :
    followParents p v.parent fuel (some x) = Bfs.walkBack m.parent p.isSource fuel x := by
  induction fuel generalizing x with
  | zero => rfl
  | succ fuel ih =>
    rw [ContainmentProblem.followParents, Bfs.walkBack, h.parent x hx]
    cases hl : m.parent.lookup x with
    | none => cases fuel <;> rfl
    | some previous =>
      have hlt : previous < p.nodeCount :=
        (PropagationGraph.Conservative.lt (hrec.lookup hl).1).1
      simp only [ih hlt]

/-- The entries of a record are distinct nodes of the graph. -/
theorem recorded_spec {roots : List NodeIndex} {parent : List (NodeIndex × NodeIndex)}
    (h : Bfs.Recorded p.graph.conservativeSuccessors excluded roots parent) :
    (parent.map Prod.fst).Nodup ∧ ∀ x ∈ parent.map Prod.fst, x < p.nodeCount := by
  induction parent with
  | nil => simp
  | cons entry older ih =>
    obtain ⟨hold, hsucc, -, -, hnew, -⟩ := h
    obtain ⟨hnd, hlt⟩ := ih hold
    refine ⟨List.nodup_cons.mpr ⟨hnew, hnd⟩, fun x hx => ?_⟩
    rcases List.mem_cons.mp hx with rfl | hx
    · exact (PropagationGraph.Conservative.lt hsucc).2
    · exact hlt x hx

/-- A record has no more entries than the graph has nodes. -/
theorem length_recorded_le {roots : List NodeIndex} {parent : List (NodeIndex × NodeIndex)}
    (h : Bfs.Recorded p.graph.conservativeSuccessors excluded roots parent) :
    parent.length ≤ p.nodeCount := by
  obtain ⟨hnd, hlt⟩ := recorded_spec h
  have hsub : (parent.map Prod.fst).length ≤ (List.range p.nodeCount).length :=
    length_le_of_subset hnd fun x hx => List.mem_range.mpr (hlt x hx)
  simpa using hsub

/-- The witness search returns the residual path. -/
theorem witnessPath_eq (hp : p.WellFormed) (excluded : List NodeIndex) :
    witnessPath p excluded = shortestResidualPath p excluded := by
  have hblocked := marked_mark p.nodeCount excluded
  have hstart : Simulates p.nodeCount
      ⟨List.replicate p.nodeCount false, List.replicate p.nodeCount none, [], none⟩ ⟨[], [], []⟩ := by
    refine ⟨marked_replicate _, List.length_replicate, fun x hx => ?_, rfl⟩
    rw [List.getD_eq_getElem?_getD, List.getElem?_replicate, if_pos hx]
    rfl
  obtain ⟨hsources, hnone⟩ := hstart.sources hblocked hp.sources_lt
  obtain ⟨hsim, htarget⟩ := hsources.search hblocked p.nodeCount hnone
  have hmem (x : NodeIndex) : x ∈ (Bfs.discover excluded p.sources ([], [])).2 ↔
      x ∈ p.sources ∧ x ∉ excluded := Bfs.mem_discover_seeds p.sources x
  have hsome := Bfs.search_some p.isProtected p.nodeCount _
    (Bfs.marks_seeds p.graph.conservativeSuccessors excluded p.sources)
  rw [witnessPath, shortestResidualPath, Bfs.shortestPath]
  generalize Bfs.search p.graph.conservativeSuccessors excluded p.isProtected p.nodeCount _ = c
    at hsim htarget hsome ⊢
  obtain ⟨m, target⟩ := c
  simp only at hsim htarget hsome
  rw [htarget]
  cases target with
  | none => rfl
  | some t =>
    obtain ⟨hrec, -, ht⟩ := hsome t rfl
    have hlt : t < p.nodeCount := (recorded_spec hrec).2 t ht
    simp only
    -- Both walks back have steps enough to read the whole path.
    rw [hsim.followParents hrec _ hlt]
    have hroot : ∀ x ∈ (Bfs.discover excluded p.sources ([], [])).2, p.isSource x = true :=
      fun x hx => by simpa [isSource] using ((hmem x).mp hx).1
    have hstop : ∀ x, x ∉ excluded → x ∉ (Bfs.discover excluded p.sources ([], [])).2 →
        p.isSource x = false := by
      intro x hb hx
      rw [isSource, decide_eq_false_iff_not]
      exact fun hs => hx ((hmem x).mpr ⟨hs, hb⟩)
    rw [Bfs.walkBack_eq_trail hrec hroot hstop (Nat.lt_succ_of_le (length_recorded_le hrec))
        (Or.inr ht),
      Bfs.walkBack_eq_trail hrec hroot hstop (Nat.lt_succ_self _) (Or.inr ht)]

end Search

end ContainmentProblem

end Fcfn
