import Mathlib.Data.Finset.Card
import Mathlib.Data.List.Nodup
import Fcfn.Lib.Walks

/-!
# Breadth-first search with a queue

Two searches over a successor function, with a list of blocked nodes that are never entered.
`visited` runs the queue dry and returns the nodes in the order they leave it; `shortestPath`
records the node each one was discovered from, stops at the first goal it discovers, and walks
the record back to a seed. Both take a round count as fuel, since a loop on a queue does not
recurse on anything; a count of at least the number of nodes of the graph is enough
(`mem_visited_iff`, `shortestPath_eq_nil_iff`).

A goal that is itself a seed is visited but never discovered, so `shortestPath` does not see it:
the empty answer means that every reached goal is a seed. -/

namespace Fcfn.Bfs

open Walks (Reaches)

variable {α : Type*} [DecidableEq α]

/-- Queue the nodes of a list that are neither blocked nor seen, marking each as seen. The state
is the pair of the seen nodes and the queue. -/
def discover (blocked : List α) : List α → List α × List α → List α × List α
  | [], st => st
  | next :: rest, (seen, queue) =>
    if next ∈ blocked ∨ next ∈ seen then discover blocked rest (seen, queue)
    else discover blocked rest (next :: seen, queue ++ [next])

/-- The nodes that leave the queue, in order. -/
def collect (succ : α → List α) (blocked : List α) : ℕ → List α → List α → List α
  | 0, _, _ => []
  | _ + 1, _, [] => []
  | fuel + 1, seen, node :: queue =>
    let st := discover blocked (succ node) (seen, queue)
    node :: collect succ blocked fuel st.1 st.2

/-- The nodes a search from `seeds` visits. -/
def visited (succ : α → List α) (blocked : List α) (fuel : ℕ) (seeds : List α) : List α :=
  let st := discover blocked seeds ([], [])
  collect succ blocked fuel st.1 st.2

/-- The search that stops as soon as a goal leaves the queue. -/
def meets (succ : α → List α) (blocked : List α) (goal : α → Bool) : ℕ → List α → List α → Bool
  | 0, _, _ => false
  | _ + 1, _, [] => false
  | fuel + 1, seen, node :: queue =>
    if goal node then true
    else
      let st := discover blocked (succ node) (seen, queue)
      meets succ blocked goal fuel st.1 st.2

/-- What a search that records parents carries: the seen nodes, the queue, and for each
discovered node the node it was discovered from, the latest first. -/
structure Marks (α : Type*) where
  seen : List α
  queue : List α
  parent : List (α × α)

/-- Discover the successors of `node` up to the first goal among them, which is returned. -/
def scan (blocked : List α) (goal : α → Bool) (node : α) :
    List α → Marks α → Marks α × Option α
  | [], m => (m, none)
  | next :: rest, m =>
    if next ∈ blocked ∨ next ∈ m.seen then scan blocked goal node rest m
    else
      let seen := next :: m.seen
      let parent := (next, node) :: m.parent
      if goal next then (⟨seen, m.queue, parent⟩, some next)
      else scan blocked goal node rest ⟨seen, m.queue ++ [next], parent⟩

/-- Search until a goal is discovered or the queue is empty. -/
def search (succ : α → List α) (blocked : List α) (goal : α → Bool) :
    ℕ → Marks α → Marks α × Option α
  | 0, m => (m, none)
  | _ + 1, ⟨seen, [], parent⟩ => (⟨seen, [], parent⟩, none)
  | fuel + 1, ⟨seen, node :: queue, parent⟩ =>
    match scan blocked goal node (succ node) ⟨seen, queue, parent⟩ with
    | (m, some target) => (m, some target)
    | (m, none) => search succ blocked goal fuel m

/-- The nodes from `node` back along the parents to the first one that stops the walk. -/
def walkBack (parent : List (α × α)) (stop : α → Bool) : ℕ → α → List α
  | 0, _ => []
  | fuel + 1, node =>
    node :: if stop node then [] else
      match parent.lookup node with
      | none => []
      | some previous => walkBack parent stop fuel previous

/-- A shortest path from a seed to a goal that is not a seed, empty when there is none. -/
def shortestPath (succ : α → List α) (blocked : List α) (goal stop : α → Bool) (fuel : ℕ)
    (seeds : List α) : List α :=
  let st := discover blocked seeds ([], [])
  match search succ blocked goal fuel ⟨st.1, st.2, []⟩ with
  | (_, none) => []
  | (m, some target) => (walkBack m.parent stop (m.parent.length + 1) target).reverse

/-! ## The exhaustive search -/

/-- What a round of discovery adds: distinct nodes of the list, unblocked and not seen before,
after which every unblocked node of the list is seen. -/
theorem discover_spec (blocked nexts seen queue : List α) :
    ∃ new, (discover blocked nexts (seen, queue)).2 = queue ++ new ∧
      (∀ x, x ∈ (discover blocked nexts (seen, queue)).1 ↔ x ∈ seen ∨ x ∈ new) ∧ new.Nodup ∧
      (∀ x ∈ new, x ∈ nexts ∧ x ∉ blocked ∧ x ∉ seen) ∧
      ∀ x ∈ nexts, x ∉ blocked → x ∈ seen ∨ x ∈ new := by
  induction nexts generalizing seen queue with
  | nil => exact ⟨[], by simp [discover]⟩
  | cons next rest ih =>
    -- a node that is blocked or seen adds nothing, another one is seen and queued
    by_cases hskip : next ∈ blocked ∨ next ∈ seen
    · obtain ⟨new, hq, hs, hnd, hnew, hall⟩ := ih seen queue
      rw [discover, if_pos hskip]
      refine ⟨new, hq, hs, hnd, fun x hx => ⟨List.mem_cons_of_mem _ (hnew x hx).1, (hnew x hx).2⟩, ?_⟩
      intro x hx hxb
      rcases List.mem_cons.mp hx with rfl | hx
      · exact Or.inl (hskip.resolve_left hxb)
      · exact hall x hx hxb
    · obtain ⟨new, hq, hs, hnd, hnew, hall⟩ := ih (next :: seen) (queue ++ [next])
      rw [discover, if_neg hskip]
      push Not at hskip
      refine ⟨next :: new, by rw [hq]; simp, fun x => by rw [hs]; simp; tauto, ?_, ?_, ?_⟩
      · exact List.nodup_cons.mpr ⟨fun h => (hnew next h).2.2 (by simp), hnd⟩
      · intro x hx
        rcases List.mem_cons.mp hx with rfl | hx
        · exact ⟨by simp, hskip⟩
        · obtain ⟨h1, h2, h3⟩ := hnew x hx
          exact ⟨List.mem_cons_of_mem _ h1, h2, fun h => h3 (List.mem_cons_of_mem _ h)⟩
      · intro x hx hxb
        rcases List.mem_cons.mp hx with rfl | hx
        · exact Or.inr (by simp)
        · rcases hall x hx hxb with h | h
          · rcases List.mem_cons.mp h with rfl | h
            · exact Or.inr (by simp)
            · exact Or.inl h
          · exact Or.inr (List.mem_cons_of_mem _ h)

section Collect

variable {succ : α → List α} {blocked : List α} {U : Finset α}

/-- The state of a search between two rounds: `done` has left the queue, seen is what is done or
queued, nothing is done or queued twice, everything lies in the graph's node set `U`, and the
unblocked successors of what is done are seen. -/
structure Round (succ : α → List α) (blocked : List α) (U : Finset α)
    (done seen queue : List α) : Prop where
  /-- Seen is what is done or queued. -/
  seen_iff : ∀ x, x ∈ seen ↔ x ∈ done ∨ x ∈ queue
  /-- Nothing is done or queued twice. -/
  nodup : (done ++ queue).Nodup
  /-- Everything lies in the node set. -/
  inside : ∀ x ∈ done ++ queue, x ∈ U
  /-- The unblocked successors of what is done are seen. -/
  closed : ∀ a ∈ done, ∀ b ∈ succ a, b ∉ blocked → b ∈ seen

/-- A round of the search keeps its invariant. -/
theorem Round.next {done seen queue : List α} {node : α}
    (h : Round succ blocked U done seen (node :: queue)) (hU : ∀ a ∈ U, ∀ b ∈ succ a, b ∈ U) :
    Round succ blocked U (done ++ [node]) (discover blocked (succ node) (seen, queue)).1
      (discover blocked (succ node) (seen, queue)).2 := by
  obtain ⟨new, hq, hs, hnd, hnew, hall⟩ := discover_spec blocked (succ node) seen queue
  have hnode : node ∈ U := h.inside node (by simp)
  rw [hq]
  -- what is new was not seen, so it was neither done nor queued
  refine ⟨fun x => ?_, ?_, ?_, ?_⟩
  · rw [hs, h.seen_iff]; simp only [List.mem_append, List.mem_cons, List.not_mem_nil]; tauto
  · have hold : (done ++ [node] ++ queue).Nodup := by simpa using h.nodup
    rw [← List.append_assoc]
    refine List.Nodup.append hold hnd fun x hx hxn => (hnew x hxn).2.2 ((h.seen_iff x).mpr ?_)
    simpa [or_assoc] using hx
  · intro x hx
    simp only [List.mem_append, List.mem_singleton] at hx
    rcases hx with (hx | rfl) | hx | hx
    · exact h.inside x (by simp [hx])
    · exact hnode
    · exact h.inside x (by simp [hx])
    · exact hU node hnode x (hnew x hx).1
  · intro a ha b hb hbb
    rw [hs]
    rcases List.mem_append.mp ha with ha | ha
    · exact Or.inl (h.closed a ha b hb hbb)
    · rw [List.mem_singleton] at ha
      exact hall b (ha ▸ hb) hbb

/-- With enough rounds left the search ends with a closed set: what was done and what it collects
contains the queue, has no duplicate, and contains its own unblocked successors. -/
theorem collect_closed (hU : ∀ a ∈ U, ∀ b ∈ succ a, b ∈ U) (fuel : ℕ) (done seen queue : List α)
    (h : Round succ blocked U done seen queue) (hfuel : U.card ≤ fuel + done.length) :
    (∀ x ∈ queue, x ∈ collect succ blocked fuel seen queue) ∧
      (done ++ collect succ blocked fuel seen queue).Nodup ∧
      ∀ a ∈ done ++ collect succ blocked fuel seen queue, ∀ b ∈ succ a, b ∉ blocked →
        b ∈ done ++ collect succ blocked fuel seen queue := by
  -- once the queue is dry, the invariant says that what is done is closed
  have hdry (hq : queue = []) : ∀ a ∈ done ++ [], ∀ b ∈ succ a, b ∉ blocked → b ∈ done ++ [] := by
    intro a ha b hb hbb
    have := h.closed a (by simpa using ha) b hb hbb
    rw [h.seen_iff, hq] at this
    simpa using this
  induction fuel generalizing done seen queue with
  | zero =>
    -- what is done and queued fits into the finite set, so without fuel nothing is queued
    have hsub : (done ++ queue).toFinset ⊆ U := fun x hx => h.inside x (List.mem_toFinset.mp hx)
    have hcard := Finset.card_le_card hsub
    rw [List.toFinset_card_of_nodup h.nodup, List.length_append] at hcard
    have hq : queue = [] := List.eq_nil_of_length_eq_zero (by omega)
    have hnd := h.nodup
    subst hq
    exact ⟨by simp, by simpa [collect] using hnd, hdry rfl⟩
  | succ fuel ih =>
    cases queue with
    | nil => exact ⟨by simp, by simpa [collect] using h.nodup, hdry rfl⟩
    | cons node queue =>
      obtain ⟨new, hq, -⟩ := discover_spec blocked (succ node) seen queue
      have hnext := h.next hU
      obtain ⟨hqueue, hnd, hclosed⟩ := ih (done ++ [node]) _ _ hnext
        (by rw [List.length_append, List.length_singleton]; omega)
        (fun hq a ha b hb hbb => by
          have := hnext.closed a (by simpa using ha) b hb hbb
          rw [hnext.seen_iff, hq] at this
          simpa using this)
      rw [collect, List.append_cons]
      refine ⟨fun x hx => ?_, hnd, hclosed⟩
      rcases List.mem_cons.mp hx with rfl | hx
      · exact List.mem_cons_self
      · exact List.mem_cons_of_mem _ (hqueue x (by rw [hq]; simp [hx]))

/-- Whatever the number of rounds, what is collected was queued or was found along an edge from
something collected. -/
theorem collect_induction {motive : α → Prop} (fuel : ℕ) (seen queue : List α)
    (hqueue : ∀ x ∈ queue, motive x)
    (hstep : ∀ a b, motive a → b ∈ succ a → b ∉ blocked → motive b) :
    ∀ x ∈ collect succ blocked fuel seen queue, motive x := by
  induction fuel generalizing seen queue with
  | zero => simp [collect]
  | succ fuel ih =>
    cases queue with
    | nil => simp [collect]
    | cons node queue =>
      obtain ⟨new, hq, -, -, hnew, -⟩ := discover_spec blocked (succ node) seen queue
      have hnode := hqueue node (by simp)
      intro x hx
      rw [collect] at hx
      rcases List.mem_cons.mp hx with rfl | hx
      · exact hnode
      · refine ih _ _ (fun y hy => ?_) x hx
        rw [hq] at hy
        rcases List.mem_append.mp hy with hy | hy
        · exact hqueue y (List.mem_cons_of_mem _ hy)
        · exact hstep node y hnode (hnew y hy).1 (hnew y hy).2.1

/-- The seeds, once discovered, are a round of the search in which nothing is done. -/
theorem round_seeds {seeds : List α} (hseeds : ∀ x ∈ seeds, x ∈ U) :
    Round succ blocked U [] (discover blocked seeds ([], [])).1
      (discover blocked seeds ([], [])).2 := by
  obtain ⟨new, hq, hs, hnd, hnew, -⟩ := discover_spec blocked seeds [] []
  rw [hq]
  refine ⟨fun x => by rw [hs]; simp, by simpa using hnd, fun x hx => ?_, by simp⟩
  exact hseeds x (hnew x (by simpa using hx)).1

/-- The queue of discovered seeds holds the seeds that are not blocked. -/
theorem mem_discover_seeds (seeds : List α) (x : α) :
    x ∈ (discover blocked seeds ([], [])).2 ↔ x ∈ seeds ∧ x ∉ blocked := by
  obtain ⟨new, hq, -, -, hnew, hall⟩ := discover_spec blocked seeds [] []
  rw [hq, List.nil_append]
  exact ⟨fun h => ⟨(hnew x h).1, (hnew x h).2.1⟩, fun h => by simpa using hall x h.1 h.2⟩

/-- With a round for each node of the graph, a search visits exactly what is reached. -/
theorem mem_visited_iff (hU : ∀ a ∈ U, ∀ b ∈ succ a, b ∈ U) {seeds : List α}
    (hseeds : ∀ x ∈ seeds, x ∈ U) {fuel : ℕ} (hfuel : U.card ≤ fuel) (x : α) :
    x ∈ visited succ blocked fuel seeds ↔
      Reaches (fun a b => b ∈ succ a) {y | y ∈ blocked} {y | y ∈ seeds} x := by
  obtain ⟨hqueue, -, hclosed⟩ := collect_closed hU fuel [] _ _ (round_seeds hseeds)
    (show U.card ≤ fuel + 0 by omega)
  simp only [List.nil_append] at hclosed
  constructor
  · refine collect_induction fuel _ _ (fun y hy => ?_) (fun a b ha hb hbb => ha.step hb hbb) x
    rw [mem_discover_seeds] at hy
    exact .seed hy.1 hy.2
  · intro h
    refine h.rec_on (fun s hs hsb => hqueue s ?_) (fun a b _ ha hab hb => hclosed a ha b hab hb)
    exact (mem_discover_seeds seeds s).mpr ⟨hs, hsb⟩

/-- No node is visited twice. -/
theorem nodup_visited (hU : ∀ a ∈ U, ∀ b ∈ succ a, b ∈ U) {seeds : List α}
    (hseeds : ∀ x ∈ seeds, x ∈ U) {fuel : ℕ} (hfuel : U.card ≤ fuel) :
    (visited succ blocked fuel seeds).Nodup := by
  obtain ⟨-, hnd, -⟩ := collect_closed hU fuel [] _ _ (round_seeds hseeds)
    (show U.card ≤ fuel + 0 by omega)
  simpa [visited] using hnd

/-- Stopping early at a goal finds one exactly when the exhaustive search visits one. -/
theorem meets_eq_any (goal : α → Bool) (fuel : ℕ) (seen queue : List α) :
    meets succ blocked goal fuel seen queue = (collect succ blocked fuel seen queue).any goal := by
  induction fuel generalizing seen queue with
  | zero => rfl
  | succ fuel ih =>
    cases queue with
    | nil => rfl
    | cons node queue =>
      simp only [meets, collect, List.any_cons, ih]
      cases goal node <;> rfl

end Collect

/-! ## The search with parents -/

section Parents

variable {succ : α → List α} {blocked roots : List α} {goal stop : α → Bool}

/-- What a record of parents says, the latest entry first: each node is entered once, from a root
or an earlier node, along an edge, and is neither blocked nor a root. -/
def Recorded (succ : α → List α) (blocked roots : List α) : List (α × α) → Prop
  | [] => True
  | (node, previous) :: older =>
    Recorded succ blocked roots older ∧ node ∈ succ previous ∧ node ∉ blocked ∧ node ∉ roots ∧
      node ∉ older.map Prod.fst ∧ (previous ∈ roots ∨ previous ∈ older.map Prod.fst)

/-- What holds of the marks between two steps of the search. -/
structure Marks.Valid (succ : α → List α) (blocked roots : List α) (m : Marks α) : Prop where
  /-- The parents are a record. -/
  recorded : Recorded succ blocked roots m.parent
  /-- Seen is the roots and what was recorded. -/
  seen_iff : ∀ x, x ∈ m.seen ↔ x ∈ roots ∨ x ∈ m.parent.map Prod.fst
  /-- The queue holds seen nodes. -/
  queued : ∀ x ∈ m.queue, x ∈ m.seen

/-- A scan keeps the marks valid, and the goal it returns is a recorded goal. -/
theorem scan_valid (goal : α → Bool) (node : α) (nexts : List α) (m : Marks α) (h : m.Valid succ blocked roots)
    (hnode : node ∈ m.seen) (hsub : ∀ x ∈ nexts, x ∈ succ node) :
    (scan blocked goal node nexts m).1.Valid succ blocked roots ∧
      ∀ t, (scan blocked goal node nexts m).2 = some t →
        goal t = true ∧ t ∈ (scan blocked goal node nexts m).1.parent.map Prod.fst := by
  induction nexts generalizing m with
  | nil => exact ⟨h, by simp [scan]⟩
  | cons next rest ih =>
    have hrest : ∀ x ∈ rest, x ∈ succ node := fun x hx => hsub x (List.mem_cons_of_mem _ hx)
    rw [scan]
    split
    · exact ih m h hnode hrest
    · rename_i hskip
      push Not at hskip
      -- a new node is recorded after the node that it was found from
      have hfresh := hskip.2
      rw [h.seen_iff] at hfresh
      push Not at hfresh
      have hrec : Recorded succ blocked roots ((next, node) :: m.parent) :=
        ⟨h.recorded, hsub next (by simp), hskip.1, hfresh.1, hfresh.2, (h.seen_iff node).mp hnode⟩
      have hseen (x : α) : x ∈ next :: m.seen ↔
          x ∈ roots ∨ x ∈ ((next, node) :: m.parent).map Prod.fst := by
        rw [List.mem_cons, h.seen_iff]; simp only [List.map_cons, List.mem_cons]; tauto
      split
      · rename_i hgoal
        exact ⟨⟨hrec, hseen, fun x hx => List.mem_cons_of_mem _ (h.queued x hx)⟩,
          fun t ht => by simp only [Option.some.injEq] at ht; subst ht; exact ⟨hgoal, by simp⟩⟩
      · refine ih _ ⟨hrec, hseen, fun x hx => ?_⟩ (List.mem_cons_of_mem _ hnode) hrest
        rcases List.mem_append.mp hx with hx | hx
        · exact List.mem_cons_of_mem _ (h.queued x hx)
        · rw [List.mem_singleton] at hx; exact hx ▸ List.mem_cons_self

/-- A scan that finds no goal discovers what the exhaustive search discovers, and queues no
goal. -/
theorem scan_eq_discover (blocked : List α) (goal : α → Bool) (node : α) (nexts : List α) (m : Marks α)
    (h : (scan blocked goal node nexts m).2 = none) :
    ((scan blocked goal node nexts m).1.seen, (scan blocked goal node nexts m).1.queue) =
        discover blocked nexts (m.seen, m.queue) ∧
      ∀ x ∈ (scan blocked goal node nexts m).1.queue, x ∈ m.queue ∨ goal x = false := by
  induction nexts generalizing m with
  | nil => exact ⟨rfl, fun x hx => Or.inl hx⟩
  | cons next rest ih =>
    rw [scan] at h ⊢
    rw [discover]
    split at h
    · rename_i hskip
      rw [if_pos hskip, if_pos hskip]
      exact ih m h
    · rename_i hskip
      rw [if_neg hskip, if_neg hskip]
      simp only at h ⊢
      split at h
      · simp at h
      · rename_i hgoal
        rw [if_neg hgoal]
        -- no goal was met, so the scan goes on as a discovery does
        obtain ⟨heq, hqueue⟩ := ih _ h
        refine ⟨heq, fun x hx => ?_⟩
        rcases hqueue x hx with hx | hx
        · rcases List.mem_append.mp hx with hx | hx
          · exact Or.inl hx
          · rw [List.mem_singleton] at hx; exact Or.inr (by simpa [hx] using hgoal)
        · exact Or.inr hx

/-- A search that returns a target returns a recorded goal. -/
theorem search_some (goal : α → Bool) (fuel : ℕ) (m : Marks α) (h : m.Valid succ blocked roots) (t : α)
    (ht : (search succ blocked goal fuel m).2 = some t) :
    Recorded succ blocked roots (search succ blocked goal fuel m).1.parent ∧ goal t = true ∧
      t ∈ (search succ blocked goal fuel m).1.parent.map Prod.fst := by
  induction fuel generalizing m with
  | zero => simp [search] at ht
  | succ fuel ih =>
    obtain ⟨seen, queue, parent⟩ := m
    cases queue with
    | nil => simp [search] at ht
    | cons node queue =>
      have hm : Marks.Valid succ blocked roots ⟨seen, queue, parent⟩ :=
        ⟨h.recorded, h.seen_iff, fun x hx => h.queued x (List.mem_cons_of_mem _ hx)⟩
      obtain ⟨hvalid, hgoal⟩ := scan_valid goal node (succ node) _ hm
        (h.queued node (by simp)) (fun x hx => hx)
      rw [search] at ht ⊢
      generalize scan blocked goal node (succ node) ⟨seen, queue, parent⟩ = r at *
      obtain ⟨m', target⟩ := r
      cases target with
      | none => exact ih m' hvalid ht
      | some target =>
        simp only [Option.some.injEq] at ht
        subst ht
        exact ⟨hvalid.recorded, hgoal target rfl⟩

/-- A search that returns nothing has queued no goal: whatever the exhaustive search collects
beyond the initial queue is not a goal. -/
theorem search_none (fuel : ℕ) (m : Marks α) (h : (search succ blocked goal fuel m).2 = none) :
    ∀ x ∈ collect succ blocked fuel m.seen m.queue, x ∈ m.queue ∨ goal x = false := by
  induction fuel generalizing m with
  | zero => simp [collect]
  | succ fuel ih =>
    obtain ⟨seen, queue, parent⟩ := m
    cases queue with
    | nil => simp [collect]
    | cons node queue =>
      rw [search] at h
      -- the scans found no goal, so the exhaustive search makes the same rounds
      have hscan := scan_eq_discover blocked goal node (succ node)
        ⟨seen, queue, parent⟩
      generalize scan blocked goal node (succ node) ⟨seen, queue, parent⟩ = r at *
      obtain ⟨m', target⟩ := r
      cases target with
      | some target => simp at h
      | none =>
        obtain ⟨heq, hqueue⟩ := hscan rfl
        intro x hx
        rw [collect, ← heq] at hx
        rcases List.mem_cons.mp hx with rfl | hx
        · exact Or.inl (by simp)
        · rcases ih m' h x hx with hx | hx
          · exact (hqueue x hx).imp_left (List.mem_cons_of_mem _)
          · exact Or.inr hx

/-- What the record says of a node it holds. -/
theorem Recorded.lookup {parent : List (α × α)} (h : Recorded succ blocked roots parent) {x p : α}
    (hx : parent.lookup x = some p) :
    x ∈ succ p ∧ x ∉ blocked ∧ x ∉ roots ∧ (p ∈ roots ∨ p ∈ parent.map Prod.fst) := by
  induction parent with
  | nil => simp at hx
  | cons entry older ih =>
    obtain ⟨node, previous⟩ := entry
    obtain ⟨hrec, hsucc, hb, hr, -, hprev⟩ := h
    rw [List.lookup_cons] at hx
    split at hx
    · rename_i heq
      rw [beq_iff_eq] at heq
      simp only [Option.some.injEq] at hx
      subst heq hx
      exact ⟨hsucc, hb, hr, hprev.imp_right (by simp +contextual)⟩
    · obtain ⟨h1, h2, h3, h4⟩ := ih hrec hx
      exact ⟨h1, h2, h3, h4.imp_right (by simp +contextual)⟩

omit [DecidableEq α] in
/-- The recorded nodes are neither blocked nor roots. -/
theorem Recorded.not_mem {parent : List (α × α)} (h : Recorded succ blocked roots parent) :
    ∀ x ∈ parent.map Prod.fst, x ∉ blocked ∧ x ∉ roots := by
  induction parent with
  | nil => simp
  | cons entry older ih =>
    obtain ⟨hold, -, hb, hr, -⟩ := h
    intro x hx
    rw [List.map_cons, List.mem_cons] at hx
    rcases hx with rfl | hx
    · exact ⟨hb, hr⟩
    · exact ih hold x hx

/-- Back from an older node, the walk does not use the latest entry of the record. -/
theorem walkBack_cons {node previous : α} {older : List (α × α)}
    (h : Recorded succ blocked roots ((node, previous) :: older)) (fuel : ℕ) (x : α)
    (hx : x ∈ roots ∨ x ∈ older.map Prod.fst) :
    walkBack ((node, previous) :: older) stop fuel x = walkBack older stop fuel x := by
  obtain ⟨hrec, -, -, hnroot, hnold, -⟩ := h
  induction fuel generalizing x with
  | zero => rfl
  | succ fuel ih =>
    have hne : x ≠ node := by rintro rfl; exact hx.elim hnroot hnold
    have hlookup : ((node, previous) :: older).lookup x = older.lookup x := by
      rw [List.lookup_cons, beq_false_of_ne hne]
    rw [walkBack, walkBack, hlookup]
    cases hl : older.lookup x with
    | none => rfl
    | some p => simp only [ih p (hrec.lookup hl).2.2.2]

/-- The list of nodes from `x` back to a root: every node but the root is entered along an edge
from the next one, is not blocked, and is not a root. -/
inductive Back (succ : α → List α) (blocked roots : List α) : α → List α → Prop
  | root {r : α} : r ∈ roots → Back succ blocked roots r [r]
  | step {x p : α} {l : List α} : x ∈ succ p → x ∉ blocked → x ∉ roots →
      Back succ blocked roots p l → Back succ blocked roots x (x :: l)

/-- Walking back over a record from a root or a recorded node ends at a root, through distinct
nodes that are roots or recorded. -/
theorem walkBack_spec (stop : α → Bool) {parent : List (α × α)}
    (h : Recorded succ blocked roots parent) (hroot : ∀ x ∈ roots, stop x = true)
    (hstop : ∀ x, x ∉ blocked → x ∉ roots → stop x = false)
    {fuel : ℕ} (hfuel : parent.length < fuel) {x : α}
    (hx : x ∈ roots ∨ x ∈ parent.map Prod.fst) :
    Back succ blocked roots x (walkBack parent stop fuel x) ∧
      (walkBack parent stop fuel x).Nodup ∧
      ∀ y ∈ walkBack parent stop fuel x, y ∈ roots ∨ y ∈ parent.map Prod.fst := by
  -- over the record, newest entry first: a node was recorded after the one it was found from, so
  -- the walk goes on in the older part of the record
  induction parent generalizing fuel x with
  | nil =>
    obtain ⟨k, rfl⟩ : ∃ k, fuel = k + 1 := ⟨fuel - 1, by simp at hfuel; omega⟩
    have hxr : x ∈ roots := by simpa using hx
    rw [walkBack, if_pos (hroot x hxr)]
    exact ⟨.root hxr, by simp, by simpa using hxr⟩
  | cons entry older ih =>
    obtain ⟨node, previous⟩ := entry
    have hrec := h
    obtain ⟨hold, hsucc, hb, hr, hnold, hprev⟩ := hrec
    rw [List.length_cons] at hfuel
    by_cases hnode : x = node
    · subst hnode
      obtain ⟨k, rfl⟩ : ∃ k, fuel = k + 1 := ⟨fuel - 1, by omega⟩
      rw [walkBack, hstop x hb hr, List.lookup_cons_self]
      simp only [Bool.false_eq_true, if_false]
      rw [walkBack_cons h k previous hprev]
      obtain ⟨hback, hnd, hmem⟩ := ih hold (by omega : older.length < k) hprev
      refine ⟨.step hsucc hb hr hback, List.nodup_cons.mpr ⟨fun hin => ?_, hnd⟩, fun y hy => ?_⟩
      · exact (hmem x hin).elim hr hnold
      · rcases List.mem_cons.mp hy with rfl | hy
        · exact Or.inr (by simp)
        · exact (hmem y hy).imp_right (by simp +contextual)
    · have hxold : x ∈ roots ∨ x ∈ older.map Prod.fst := hx.imp_right (by simp [hnode])
      rw [walkBack_cons h fuel x hxold]
      obtain ⟨hback, hnd, hmem⟩ := ih hold (by omega : older.length < fuel) hxold
      exact ⟨hback, hnd, fun y hy => (hmem y hy).imp_right (by simp +contextual)⟩

omit [DecidableEq α] in
/-- What a way back says of the path it reverses to. -/
theorem Back.path {x : α} {l : List α} (h : Back succ blocked roots x l)
    (hroots : ∀ r ∈ roots, r ∉ blocked) :
    l.reverse.IsChain (fun a b => b ∈ succ a) ∧ (∃ r ∈ roots, l.reverse.head? = some r) ∧
      l.reverse.getLast? = some x ∧ (∀ y ∈ l.reverse, y ∉ blocked) ∧
      ∀ y ∈ l.reverse.tail, y ∉ roots := by
  induction h with
  | root hr => exact ⟨by simp, ⟨_, hr, rfl⟩, rfl, by simpa using hroots _ hr, by simp⟩
  | @step x p l hsucc hb hr _ ih =>
    obtain ⟨hchain, ⟨r, hrr, hhead⟩, hlast, hout, htail⟩ := ih
    obtain ⟨t, ht⟩ := List.head?_eq_some_iff.mp hhead
    rw [List.reverse_cons]
    refine ⟨?_, ⟨r, hrr, by rw [ht]; rfl⟩, by simp, ?_, ?_⟩
    · rw [List.isChain_append]
      refine ⟨hchain, by simp, fun a ha b hb' => ?_⟩
      rw [hlast, Option.mem_some_iff] at ha
      simp only [List.head?_cons, Option.mem_some_iff] at hb'
      exact ha ▸ hb' ▸ hsucc
    · intro y hy
      rcases List.mem_append.mp hy with hy | hy
      · exact hout y hy
      · rw [List.mem_singleton] at hy; exact hy ▸ hb
    · rw [ht] at htail ⊢
      intro y hy
      rw [List.cons_append, List.tail_cons] at hy
      rcases List.mem_append.mp hy with hy | hy
      · exact htail y hy
      · rw [List.mem_singleton] at hy; exact hy ▸ hr

/-- What a search that recorded parents answers: a path from a seed to a goal along edges, through
unblocked nodes of which only the first is a seed. -/
structure Path (succ : α → List α) (blocked seeds : List α) (goal : α → Bool) (p : List α) :
    Prop where
  /-- Consecutive nodes are joined by an edge. -/
  chain : p.IsChain (fun a b => b ∈ succ a)
  /-- It starts at a seed. -/
  head : ∃ r ∈ seeds, p.head? = some r
  /-- It ends at a goal that is not a seed. -/
  last : ∃ t, p.getLast? = some t ∧ goal t = true ∧ t ∉ seeds
  /-- It enters no blocked node. -/
  unblocked : ∀ y ∈ p, y ∉ blocked
  /-- Only its first node is a seed. -/
  tail : ∀ y ∈ p.tail, y ∉ seeds
  /-- It enters no node twice. -/
  nodup : p.Nodup

omit [DecidableEq α] in
/-- An answer has at least two nodes. -/
theorem Path.two_le_length {seeds p : List α} (h : Path succ blocked seeds goal p) :
    2 ≤ p.length := by
  obtain ⟨r, hr, hhead⟩ := h.head
  obtain ⟨t, hlast, -, ht⟩ := h.last
  match p with
  | [] => simp at hhead
  | [y] =>
    simp only [List.head?_cons, Option.some.injEq] at hhead
    simp only [List.getLast?_singleton, Option.some.injEq] at hlast
    exact absurd (hlast ▸ hhead ▸ hr) ht
  | _ :: _ :: _ => simp

variable {seeds : List α} {fuel : ℕ}

/-- The marks the seeds are discovered into are valid. -/
theorem marks_seeds (succ : α → List α) (blocked seeds : List α) :
    Marks.Valid succ blocked (discover blocked seeds ([], [])).2
      ⟨(discover blocked seeds ([], [])).1, (discover blocked seeds ([], [])).2, []⟩ := by
  obtain ⟨new, hq, hs, -⟩ := discover_spec blocked seeds [] []
  refine ⟨trivial, fun x => by rw [hs, hq]; simp, fun x hx => ?_⟩
  rw [hs]
  exact Or.inr (by simpa [hq] using hx)

/-- A non-empty answer is a path. The walk back stops at the seeds. -/
theorem shortestPath_path (hstop : ∀ x, stop x = true ↔ x ∈ seeds)
    (h : shortestPath succ blocked goal stop fuel seeds ≠ []) :
    Path succ blocked seeds goal (shortestPath succ blocked goal stop fuel seeds) := by
  rw [shortestPath] at h ⊢
  have hsome := search_some goal fuel _
    (marks_seeds succ blocked seeds)
  generalize hroots : (discover blocked seeds ([], [])).2 = roots at *
  generalize search succ blocked goal fuel _ = r at *
  obtain ⟨m, target⟩ := r
  cases target with
  | none => exact absurd rfl h
  | some t =>
    obtain ⟨hrec, hgoal, ht⟩ := hsome t rfl
    have hmem (x : α) : x ∈ roots ↔ x ∈ seeds ∧ x ∉ blocked := by
      rw [← hroots]; exact mem_discover_seeds seeds x
    obtain ⟨hback, hnd, -⟩ := walkBack_spec stop hrec
      (fun x hx => (hstop x).mpr ((hmem x).mp hx).1)
      (fun x hb hr => by
        rw [Bool.eq_false_iff, ne_eq, hstop]; exact fun hs => hr ((hmem x).mpr ⟨hs, hb⟩))
      (Nat.lt_succ_self _) (Or.inr ht)
    obtain ⟨hchain, ⟨r, hr, hhead⟩, hlast, hout, htail⟩ :=
      hback.path (fun r hr => ((hmem r).mp hr).2)
    -- a seed that is no root is blocked
    have hnot (x : α) (hb : x ∉ blocked) (hr : x ∉ roots) : x ∉ seeds :=
      fun hs => hr ((hmem x).mpr ⟨hs, hb⟩)
    refine ⟨hchain, ⟨r, ((hmem r).mp hr).1, hhead⟩, ⟨t, hlast, hgoal, ?_⟩, hout, ?_,
      List.nodup_reverse.mpr hnd⟩
    · exact hnot t (hrec.not_mem t ht).1 (hrec.not_mem t ht).2
    · exact fun y hy => hnot y (hout y (List.mem_of_mem_tail hy)) (htail y hy)

/-- The answer is empty exactly when every goal the seeds reach is a seed itself. -/
theorem shortestPath_eq_nil_iff {U : Finset α} (hU : ∀ a ∈ U, ∀ b ∈ succ a, b ∈ U)
    (hseeds : ∀ x ∈ seeds, x ∈ U) (hfuel : U.card ≤ fuel) (hstop : ∀ x, stop x = true ↔ x ∈ seeds) :
    shortestPath succ blocked goal stop fuel seeds = [] ↔
      ∀ x, Reaches (fun a b => b ∈ succ a) {y | y ∈ blocked} {y | y ∈ seeds} x → goal x = true →
        x ∈ seeds := by
  constructor
  · intro h x hx hgoal
    rw [← mem_visited_iff hU hseeds hfuel, visited] at hx
    have hnone : (search succ blocked goal fuel ⟨(discover blocked seeds ([], [])).1,
        (discover blocked seeds ([], [])).2, []⟩).2 = none := by
      rw [shortestPath] at h
      split at h
      · rename_i heq; rw [heq]
      · rename_i m t heq
        simp [walkBack] at h
    rcases search_none fuel _ hnone x hx with hq | hq
    · exact ((mem_discover_seeds seeds x).mp hq).1
    · simp [hgoal] at hq
  · intro h
    by_contra hne
    -- an answer would be a walk to a goal that is no seed
    have hp := shortestPath_path hstop hne
    obtain ⟨t, hlast, hgoal, ht⟩ := hp.last
    have hwalk : Walks.Walk (fun a b => b ∈ succ a) {y | y ∈ seeds} {y | goal y = true}
        (shortestPath succ blocked goal stop fuel seeds) :=
      ⟨hp.chain, hp.head, t, hgoal, hlast⟩
    exact ht (h t (hwalk.reaches hp.unblocked t (List.mem_of_getLast? hlast)) hgoal)

end Parents

end Fcfn.Bfs
