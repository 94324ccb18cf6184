import Mathlib.Data.List.Shortlex
import Fcfn.Lib.Bfs

/-!
# What a breadth-first search answers first

The queue of a breadth-first search is in the order of the paths its nodes were discovered along:
shorter paths first and, among those of one length, the lexicographically smaller. The order of
nodes is any transitive relation `r` in which the seeds and the successors of each node are listed,
so with `fun _ _ => True` the result is about lengths alone. A target that is found ends a walk that
precedes every other walk from a seed to a goal (`shortestPath_precedes`). -/

namespace Fcfn.Bfs

variable {α : Type*} {r : α → α → Prop} {u v w : List α} {a b : α}

/-! ## The order of paths -/

/-- A path that is another one, or comes before it in the shortlex order. -/
def Precedes (r : α → α → Prop) (u v : List α) : Prop :=
  u = v ∨ List.Shortlex r u v

/-- The shortlex order of a transitive relation is transitive. -/
theorem shortlex_trans [IsTrans α r] (h : List.Shortlex r u v) (h' : List.Shortlex r v w) :
    List.Shortlex r u w := by
  rw [List.shortlex_def] at h h' ⊢
  rcases h with h | ⟨hlen, hlex⟩
  · rcases h' with h' | ⟨hlen', -⟩ <;> exact Or.inl (by omega)
  · rcases h' with h' | ⟨hlen', hlex'⟩
    · exact Or.inl (by omega)
    · exact Or.inr ⟨by omega, List.lex_trans (fun hab hbc => trans_of r hab hbc) hlex hlex'⟩

/-- What precedes a path precedes everything after it. -/
theorem Precedes.trans [IsTrans α r] (h : Precedes r u v) (h' : Precedes r v w) :
    Precedes r u w := by
  rcases h with rfl | h
  · exact h'
  · rcases h' with rfl | h'
    · exact Or.inr h
    · exact Or.inr (shortlex_trans h h')

/-- What comes before a path comes before everything the path precedes. -/
theorem shortlex_of_precedes [IsTrans α r] (h : List.Shortlex r u v) (h' : Precedes r v w) :
    List.Shortlex r u w := by
  rcases h' with rfl | h'
  · exact h
  · exact shortlex_trans h h'

/-- Lists of one length that are in lexicographic order stay so whatever is appended. -/
theorem lex_append (hlen : u.length = v.length) (h : List.Lex r u v) (s t : List α) :
    List.Lex r (u ++ s) (v ++ t) := by
  induction h with
  | nil => simp at hlen
  | rel hab => exact .rel hab
  | cons _ ih => exact .cons (ih (by simpa using hlen))

/-- Paths that are in order stay so when each takes one more step. -/
theorem shortlex_append (h : List.Shortlex r u v) (a b : α) :
    List.Shortlex r (u ++ [a]) (v ++ [b]) := by
  rw [List.shortlex_def] at h ⊢
  rcases h with h | ⟨hlen, hlex⟩
  · exact Or.inl (by simpa using h)
  · exact Or.inr ⟨by simpa using hlen, lex_append hlen hlex _ _⟩

/-- The same step taken from paths in order. -/
theorem Precedes.append (h : Precedes r u v) (a : α) : Precedes r (u ++ [a]) (v ++ [a]) := by
  rcases h with rfl | h
  · exact Or.inl rfl
  · exact Or.inr (shortlex_append h a a)

/-- Two steps from one path are in the order of the nodes they lead to. -/
theorem shortlex_step (u : List α) (h : r a b) : List.Shortlex r (u ++ [a]) (u ++ [b]) :=
  .of_lex (by simp) (List.Lex.append_left r (.rel h) u)

/-- What precedes a path is no longer. -/
theorem Precedes.length_le (h : Precedes r u v) : u.length ≤ v.length := by
  rcases h with rfl | h
  · exact le_rfl
  · rcases List.shortlex_def.mp h with h | ⟨h, -⟩ <;> omega

/-! ## The path a node was discovered along -/

section Trail

variable [DecidableEq α] {succ : α → List α} {blocked roots : List α} {goal stop : α → Bool}

/-- The path to a node along the entries of a record. -/
def trail : List (α × α) → α → List α
  | [], x => [x]
  | (node, previous) :: older, x =>
    if x = node then trail older previous ++ [x] else trail older x

@[simp] theorem trail_cons_self (node previous : α) (older : List (α × α)) :
    trail ((node, previous) :: older) node = trail older previous ++ [node] := by
  rw [trail, if_pos rfl]

@[simp] theorem trail_cons_of_ne {node x : α} (h : x ≠ node) (previous : α)
    (older : List (α × α)) : trail ((node, previous) :: older) x = trail older x := by
  rw [trail, if_neg h]

/-- The path to a node ends there. -/
theorem getLast?_trail (parent : List (α × α)) (x : α) : (trail parent x).getLast? = some x := by
  induction parent with
  | nil => rfl
  | cons entry older ih =>
    rw [trail]
    split
    · simp
    · exact ih

/-- The path to a node has a node. -/
theorem length_trail_pos (parent : List (α × α)) (x : α) : 0 < (trail parent x).length := by
  have h := getLast?_trail parent x
  cases htrail : trail parent x with
  | nil =>
    rw [htrail] at h
    exact absurd h (by simp)
  | cons y l => simp

/-- A root is discovered along no edge. -/
theorem trail_root {parent : List (α × α)} (h : Recorded succ blocked roots parent) {x : α}
    (hx : x ∈ roots) : trail parent x = [x] := by
  induction parent with
  | nil => rfl
  | cons entry older ih =>
    obtain ⟨node, previous⟩ := entry
    obtain ⟨hold, -, -, hroot, -⟩ := h
    have hne : x ≠ node := by
      rintro rfl
      exact hroot hx
    rw [trail_cons_of_ne hne, ih hold]

/-- Walking back over a record reads the path to the node backwards, given enough steps. -/
theorem walkBack_eq_trail {parent : List (α × α)} (h : Recorded succ blocked roots parent)
    (hroot : ∀ x ∈ roots, stop x = true) (hstop : ∀ x, x ∉ blocked → x ∉ roots → stop x = false)
    {fuel : ℕ} (hfuel : parent.length < fuel) {x : α}
    (hx : x ∈ roots ∨ x ∈ parent.map Prod.fst) :
    (walkBack parent stop fuel x).reverse = trail parent x := by
  induction parent generalizing fuel x with
  | nil =>
    obtain ⟨k, rfl⟩ : ∃ k, fuel = k + 1 := ⟨fuel - 1, by simp at hfuel; omega⟩
    rw [walkBack, if_pos (hroot x (by simpa using hx))]
    rfl
  | cons entry older ih =>
    obtain ⟨node, previous⟩ := entry
    have hrec := h
    obtain ⟨hold, -, hb, hr, -, hprev⟩ := hrec
    rw [List.length_cons] at hfuel
    -- the newest entry either starts at the node, or is skipped by every step back from it
    by_cases hnode : x = node
    · subst hnode
      obtain ⟨k, rfl⟩ : ∃ k, fuel = k + 1 := ⟨fuel - 1, by omega⟩
      rw [walkBack, hstop x hb hr, List.lookup_cons_self]
      simp only [Bool.false_eq_true, if_false]
      rw [walkBack_cons h k previous hprev, List.reverse_cons,
        ih hold (by omega : older.length < k) hprev, trail_cons_self]
    · have hxold : x ∈ roots ∨ x ∈ older.map Prod.fst := hx.imp_right (by simp [hnode])
      rw [walkBack_cons h fuel x hxold, ih hold (by omega : older.length < fuel) hxold,
        trail_cons_of_ne hnode]

end Trail

/-! ## The order of the queue -/

section Levels

variable [DecidableEq α] {succ : α → List α} {blocked roots done : List α} {goal stop : α → Bool}
  {m : Marks α} {node x : α}

/-- The order a search keeps. What is done and then queued is in the order of the paths to it, each
seen node is a root or one step from a done one, and no goal has been discovered. -/
structure Levels (r : α → α → Prop) (succ : α → List α) (blocked roots : List α) (goal : α → Bool)
    (done : List α) (m : Marks α) : Prop where
  valid : m.Valid succ blocked roots
  /-- Seen is what is done or queued. -/
  seen_iff : ∀ x, x ∈ m.seen ↔ x ∈ done ∨ x ∈ m.queue
  /-- Nothing is done or queued twice. -/
  nodup : (done ++ m.queue).Nodup
  /-- The paths ascend. -/
  sorted : (done ++ m.queue).Pairwise fun a b =>
    List.Shortlex r (trail m.parent a) (trail m.parent b)
  /-- A seen node is a root or one step from a done node. -/
  origin : ∀ x ∈ m.seen, x ∈ roots ∨ ∃ a ∈ done, trail m.parent x = trail m.parent a ++ [x]
  /-- No goal but a root has been seen. -/
  plain : ∀ x ∈ m.seen, x ∉ roots → goal x = false

/-- The next node of the queue counts as done while its successors are looked at. -/
theorem Levels.advance {seen queue : List α} {parent : List (α × α)}
    (h : Levels r succ blocked roots goal done ⟨seen, node :: queue, parent⟩) :
    Levels r succ blocked roots goal (done ++ [node]) ⟨seen, queue, parent⟩ where
  valid := ⟨h.valid.recorded, h.valid.seen_iff,
    fun x hx => h.valid.queued x (List.mem_cons_of_mem _ hx)⟩
  seen_iff x := by
    rw [h.seen_iff]
    simp only [List.mem_append, List.mem_cons, List.not_mem_nil]
    tauto
  nodup := by simpa using h.nodup
  sorted := by simpa using h.sorted
  origin x hx := by
    rcases h.origin x hx with hroot | ⟨a, ha, htrail⟩
    · exact Or.inl hroot
    · exact Or.inr ⟨a, List.mem_append_left _ ha, htrail⟩
  plain := h.plain

/-- The path to the node whose successors are looked at comes after those to the done ones. -/
theorem Levels.shortlex_node (h : Levels r succ blocked roots goal (done ++ [node]) m)
    (ha : a ∈ done) : List.Shortlex r (trail m.parent a) (trail m.parent node) := by
  have hsorted := h.sorted
  rw [List.pairwise_append, List.pairwise_append] at hsorted
  exact hsorted.1.2.2 a ha node (by simp)

/-- No seen node is better reached over the node whose successors are looked at. -/
theorem Levels.precedes_step (h : Levels r succ blocked roots goal (done ++ [node]) m)
    (hx : x ∈ m.seen) : Precedes r (trail m.parent x) (trail m.parent node ++ [x]) := by
  rcases h.origin x hx with hroot | ⟨a, ha, htrail⟩
  · refine Or.inr (.of_length_lt ?_)
    rw [trail_root h.valid.recorded hroot]
    simpa using length_trail_pos m.parent node
  · rw [htrail]
    rcases List.mem_append.mp ha with ha | ha
    · exact Or.inr (shortlex_append (h.shortlex_node ha) x x)
    · rw [List.mem_singleton] at ha
      exact Or.inl (by rw [ha])

/-- A successor that is discovered goes to the end of the order, when it comes after the successors
discovered from the node before. -/
theorem Levels.push (h : Levels r succ blocked roots goal (done ++ [node]) m)
    (hsucc : x ∈ succ node) (hb : x ∉ blocked) (hx : x ∉ m.seen) (hgoal : goal x = false)
    (hchild : ∀ y ∈ m.seen, trail m.parent y = trail m.parent node ++ [y] → r y x) :
    Levels r succ blocked roots goal (done ++ [node])
      ⟨x :: m.seen, m.queue ++ [x], (x, node) :: m.parent⟩ := by
  have hnode : node ∈ m.seen := (h.seen_iff node).mpr (Or.inl (by simp))
  -- a node that is seen keeps its path, because its entry is older
  have hkept (y : α) (hy : y ∈ m.seen) : trail ((x, node) :: m.parent) y = trail m.parent y :=
    trail_cons_of_ne (by rintro rfl; exact hx hy) _ _
  have hlisted (y : α) (hy : y ∈ done ++ [node] ++ m.queue) : y ∈ m.seen :=
    (h.seen_iff y).mpr (List.mem_append.mp hy)
  have hfresh := hx
  rw [h.valid.seen_iff, not_or] at hfresh
  refine ⟨⟨⟨h.valid.recorded, hsucc, hb, hfresh.1, hfresh.2, (h.valid.seen_iff node).mp hnode⟩,
    fun y => ?_, fun y hy => ?_⟩, fun y => ?_, ?_, ?_, fun y hy => ?_, fun y hy hroot => ?_⟩
  · rw [List.mem_cons, h.valid.seen_iff]
    simp only [List.map_cons, List.mem_cons]
    tauto
  · rcases List.mem_append.mp hy with hy | hy
    · exact List.mem_cons_of_mem _ (h.valid.queued y hy)
    · rw [List.mem_singleton] at hy
      exact hy ▸ List.mem_cons_self
  · rw [List.mem_cons, h.seen_iff]
    simp only [List.mem_append, List.mem_singleton]
    tauto
  · rw [← List.append_assoc]
    exact List.Nodup.append h.nodup (by simp) fun y hy hyx =>
      hx (List.mem_singleton.mp hyx ▸ hlisted y hy)
  · rw [← List.append_assoc, List.pairwise_append]
    refine ⟨h.sorted.imp_of_mem fun hy hz hlt => ?_, by simp, fun y hy z hz => ?_⟩
    · rwa [hkept _ (hlisted _ hy), hkept _ (hlisted _ hz)]
    · -- The new node is one step from `node`: compare with the step that led to the older one.
      rw [List.mem_singleton] at hz
      subst hz
      rw [hkept y (hlisted y hy), trail_cons_self]
      rcases h.origin y (hlisted y hy) with hroot | ⟨a, ha, htrail⟩
      · refine .of_length_lt ?_
        rw [trail_root h.valid.recorded hroot]
        simpa using length_trail_pos m.parent node
      · rcases List.mem_append.mp ha with ha | ha
        · rw [htrail]
          exact shortlex_append (h.shortlex_node ha) y z
        · rw [List.mem_singleton] at ha
          subst ha
          rw [htrail]
          exact shortlex_step _ (hchild y (hlisted y hy) htrail)
  -- the new node hangs on the node that is scanned; the others hang where they did
  · rcases List.mem_cons.mp hy with rfl | hy
    · exact Or.inr ⟨node, by simp, by rw [trail_cons_self, hkept node hnode]⟩
    · rcases h.origin y hy with hroot | ⟨a, ha, htrail⟩
      · exact Or.inl hroot
      · have haseen : a ∈ m.seen := (h.seen_iff a).mpr (Or.inl ha)
        exact Or.inr ⟨a, ha, by rw [hkept y hy, hkept a haseen, htrail]⟩
  · rcases List.mem_cons.mp hy with rfl | hy
    · exact hgoal
    · exact h.plain y hy hroot

/-- A scan of successors in order keeps the order and what is known of the seen nodes, and sees
them all; a goal it returns is one step from the node and comes first among the goals left. -/
theorem Levels.scan (h : Levels r succ blocked roots goal (done ++ [node]) m) {nexts : List α}
    (hsub : ∀ x ∈ nexts, x ∈ succ node) (hnexts : nexts.Pairwise r)
    (hchild : ∀ y ∈ m.seen, trail m.parent y = trail m.parent node ++ [y] → ∀ x ∈ nexts, r y x) :
    (∀ x ∈ m.seen, x ∈ (scan blocked goal node nexts m).1.seen ∧
      trail (scan blocked goal node nexts m).1.parent x = trail m.parent x) ∧
    ((scan blocked goal node nexts m).2 = none →
      Levels r succ blocked roots goal (done ++ [node]) (scan blocked goal node nexts m).1 ∧
      ∀ x ∈ nexts, x ∉ blocked → x ∈ (scan blocked goal node nexts m).1.seen) ∧
    ∀ t, (scan blocked goal node nexts m).2 = some t →
      trail (scan blocked goal node nexts m).1.parent t = trail m.parent node ++ [t] ∧
      ∀ g ∈ nexts, g ∉ blocked → g ∉ m.seen → goal g = true → t = g ∨ r t g := by
  induction nexts generalizing m with
  | nil => exact ⟨fun x hx => ⟨hx, rfl⟩, fun _ => ⟨h, by simp⟩, by simp [Bfs.scan]⟩
  | cons next rest ih =>
    have hrest : ∀ x ∈ rest, x ∈ succ node := fun x hx => hsub x (List.mem_cons_of_mem _ hx)
    rw [List.pairwise_cons] at hnexts
    -- induction on the successors: one that is blocked or seen changes nothing
    by_cases hskip : next ∈ blocked ∨ next ∈ m.seen
    · have hscan : Bfs.scan blocked goal node (next :: rest) m = Bfs.scan blocked goal node rest m := by
        rw [Bfs.scan, if_pos hskip]
      obtain ⟨hold, hnone, hsome⟩ := ih h hrest hnexts.2
        fun y hy htrail x hx => hchild y hy htrail x (List.mem_cons_of_mem _ hx)
      rw [hscan]
      refine ⟨hold, fun hn => ⟨(hnone hn).1, fun x hx hb => ?_⟩, fun t ht => ⟨(hsome t ht).1, ?_⟩⟩
      · rcases List.mem_cons.mp hx with rfl | hx
        · exact (hold x (hskip.resolve_left hb)).1
        · exact (hnone hn).2 x hx hb
      · intro g hg hb hseen
        rcases List.mem_cons.mp hg with rfl | hg
        · exact absurd hskip (not_or.mpr ⟨hb, hseen⟩)
        · exact (hsome t ht).2 g hg hb hseen
    · have hout := not_or.mp hskip
      have hkept (y : α) (hy : y ∈ m.seen) : trail ((next, node) :: m.parent) y = trail m.parent y :=
        trail_cons_of_ne (by rintro rfl; exact hout.2 hy) _ _
      have hnode : node ∈ m.seen := (h.seen_iff node).mpr (Or.inl (by simp))
      -- a goal ends the scan here, and the successors left come after it
      cases hgoal : goal next with
      | true =>
        have hscan : Bfs.scan blocked goal node (next :: rest) m =
            (⟨next :: m.seen, m.queue, (next, node) :: m.parent⟩, some next) := by
          rw [Bfs.scan, if_neg hskip]
          simp only [hgoal, if_true]
        rw [hscan]
        refine ⟨fun x hx => ⟨List.mem_cons_of_mem _ hx, hkept x hx⟩, by simp, fun t ht => ?_⟩
        obtain rfl := Option.some.inj ht
        refine ⟨trail_cons_self _ _ _, fun g hg _ _ _ => ?_⟩
        rcases List.mem_cons.mp hg with rfl | hg
        · exact Or.inl rfl
        · exact Or.inr (hnexts.1 g hg)
      | false =>
        have hscan : Bfs.scan blocked goal node (next :: rest) m = Bfs.scan blocked goal node rest
            ⟨next :: m.seen, m.queue ++ [next], (next, node) :: m.parent⟩ := by
          rw [Bfs.scan, if_neg hskip]
          simp only [hgoal, Bool.false_eq_true, if_false]
        have hpush := h.push (hsub next (by simp)) hout.1 hout.2 hgoal
          fun y hy htrail => hchild y hy htrail next (by simp)
        -- another node is queued: the hypothesis on children has to hold for it as well
        obtain ⟨hold, hnone, hsome⟩ := ih hpush hrest hnexts.2 fun y hy htrail x hx => by
          rcases List.mem_cons.mp hy with rfl | hy
          · exact hnexts.1 x hx
          · rw [hkept y hy, hkept node hnode] at htrail
            exact hchild y hy htrail x (List.mem_cons_of_mem _ hx)
        rw [hscan]
        refine ⟨fun x hx => ?_, fun hn => ⟨(hnone hn).1, fun x hx hb => ?_⟩, fun t ht => ⟨?_, ?_⟩⟩
        · obtain ⟨hseen, htrail⟩ := hold x (List.mem_cons_of_mem _ hx)
          exact ⟨hseen, htrail.trans (hkept x hx)⟩
        · rcases List.mem_cons.mp hx with rfl | hx
          · exact (hold x List.mem_cons_self).1
          · exact (hnone hn).2 x hx hb
        · rw [(hsome t ht).1, hkept node hnode]
        · intro g hg hb hseen hg'
          rcases List.mem_cons.mp hg with rfl | hg
          · exact absurd hg' (by simp [hgoal])
          · refine (hsome t ht).2 g hg hb (fun hin => ?_) hg'
            rcases List.mem_cons.mp hin with rfl | hin
            · exact absurd hg' (by simp [hgoal])
            · exact hseen hin

/-- Nothing has been discovered from a node that is still queued. -/
theorem Levels.no_child {seen queue : List α} {parent : List (α × α)}
    (h : Levels r succ blocked roots goal done ⟨seen, node :: queue, parent⟩) (hx : x ∈ seen) :
    trail parent x ≠ trail parent node ++ [x] := by
  intro hchild
  rcases h.origin x hx with hroot | ⟨a, ha, htrail⟩
  · rw [trail_root h.valid.recorded hroot] at hchild
    have hlen := congrArg List.length hchild
    have := length_trail_pos parent node
    simp only [List.length_append, List.length_singleton] at hlen
    omega
  · have htrail : trail parent a ++ [x] = trail parent node ++ [x] := htrail.symm.trans hchild
    have hlast := congrArg List.getLast? (List.append_cancel_right htrail)
    rw [getLast?_trail, getLast?_trail] at hlast
    obtain rfl := Option.some.inj hlast
    exact List.disjoint_of_nodup_append h.nodup ha List.mem_cons_self

/-- What a search keeps between two rounds: the order, and that no successor of a done node is
better reached over that node. -/
structure Ordered (r : α → α → Prop) (succ : α → List α) (blocked roots : List α)
    (goal : α → Bool) (done : List α) (m : Marks α) : Prop where
  levels : Levels r succ blocked roots goal done m
  settled : ∀ a ∈ done, ∀ b ∈ succ a, b ∉ blocked →
    b ∈ m.seen ∧ Precedes r (trail m.parent b) (trail m.parent a ++ [b])

/-- A round that finds no goal keeps what the search keeps. -/
theorem Ordered.next {seen queue : List α} {parent : List (α × α)}
    (h : Ordered r succ blocked roots goal done ⟨seen, node :: queue, parent⟩)
    (hsucc : (succ node).Pairwise r)
    (hnone : (scan blocked goal node (succ node) ⟨seen, queue, parent⟩).2 = none) :
    Ordered r succ blocked roots goal (done ++ [node])
      (scan blocked goal node (succ node) ⟨seen, queue, parent⟩).1 := by
  obtain ⟨hold, hscan, -⟩ := h.levels.advance.scan (fun x hx => hx) hsucc
    fun y hy htrail => absurd htrail (h.levels.no_child hy)
  obtain ⟨hlevels, hall⟩ := hscan hnone
  refine ⟨hlevels, fun a ha b hb hout => ?_⟩
  rcases List.mem_append.mp ha with ha | ha
  · obtain ⟨hseen, hprec⟩ := h.settled a ha b hb hout
    rw [(hold b hseen).2, (hold a ((h.levels.seen_iff a).mpr (Or.inl ha))).2]
    exact ⟨(hold b hseen).1, hprec⟩
  · rw [List.mem_singleton] at ha
    subst ha
    exact ⟨hall b hb hout, hlevels.precedes_step (hall b hb hout)⟩

/-- A walk from a root either ends at a seen node that is reached no later than over the walk, or it
has left what is done: a node of it before the last is queued, and reached no later. -/
theorem Ordered.leaves [IsTrans α r] (h : Ordered r succ blocked roots goal done m)
    (walk : List α) (hchain : (walk ++ [x]).IsChain fun a b => b ∈ succ a)
    (hhead : ∃ s ∈ roots, (walk ++ [x]).head? = some s) (hout : ∀ y ∈ walk ++ [x], y ∉ blocked) :
    (x ∈ m.seen ∧ Precedes r (trail m.parent x) (walk ++ [x])) ∨
      ∃ s t q, walk = s ++ [q] ++ t ∧ q ∈ m.queue ∧
        Precedes r (trail m.parent q) (s ++ [q]) := by
  induction walk using List.reverseRecOn generalizing x with
  | nil =>
    obtain ⟨s, hs, hhead⟩ := hhead
    obtain rfl : x = s := by simpa using hhead
    exact Or.inl ⟨(h.levels.valid.seen_iff x).mpr (Or.inl hs),
      Or.inl (trail_root h.levels.valid.recorded hs)⟩
  | append_singleton walk y ih =>
    have hy : y ∈ walk ++ [y] := by simp
    rw [List.isChain_append] at hchain
    obtain ⟨hwalk, -, hlink⟩ := hchain
    have hedge : x ∈ succ y := hlink y (by simp) x (by simp)
    have hhead' : ∃ s ∈ roots, (walk ++ [y]).head? = some s := by
      obtain ⟨s, hs, hhead⟩ := hhead
      exact ⟨s, hs, by rwa [List.head?_append_of_ne_nil _ (by simp)] at hhead⟩
    -- induction on the walk from its end: where its last node but one is done, the last is seen
    rcases ih hwalk hhead' (fun z hz => hout z (List.mem_append_left _ hz)) with
      ⟨hseen, hprec⟩ | ⟨s, t, q, hsplit, hq, hprec⟩
    · rcases (h.levels.seen_iff y).mp hseen with hdone | hqueue
      · obtain ⟨hxseen, hx⟩ := h.settled y hdone x hedge (hout x (by simp))
        exact Or.inl ⟨hxseen, hx.trans (hprec.append x)⟩
      · exact Or.inr ⟨walk, [], y, by simp, hqueue, hprec⟩
    · exact Or.inr ⟨s, t ++ [y], q, by rw [hsplit]; simp, hq, hprec⟩

/-- A goal found in a round ends a path that precedes every walk from a root to a goal that is no
root. -/
theorem Ordered.found [IsTrans α r] {seen queue : List α} {parent : List (α × α)}
    (h : Ordered r succ blocked roots goal done ⟨seen, node :: queue, parent⟩)
    (hsucc : (succ node).Pairwise r) {t : α}
    (hsome : (scan blocked goal node (succ node) ⟨seen, queue, parent⟩).2 = some t)
    {walk : List α} {g : α} (hchain : (walk ++ [g]).IsChain fun a b => b ∈ succ a)
    (hhead : ∃ s ∈ roots, (walk ++ [g]).head? = some s) (hout : ∀ y ∈ walk ++ [g], y ∉ blocked)
    (hgoal : goal g = true) (hg : g ∉ roots) :
    Precedes r (trail (scan blocked goal node (succ node) ⟨seen, queue, parent⟩).1.parent t)
      (walk ++ [g]) := by
  obtain ⟨-, -, hscan⟩ := h.levels.advance.scan (fun x hx => hx) hsucc
    fun y hy htrail => absurd htrail (h.levels.no_child hy)
  obtain ⟨htrail, hfirst⟩ := hscan t hsome
  simp only at htrail
  rw [htrail]
  have hunseen : g ∉ seen := by
    intro hseen
    have := h.levels.plain g hseen hg
    rw [hgoal] at this
    exact absurd this (by simp)
  rcases h.leaves walk hchain hhead hout with ⟨hseen, -⟩ | ⟨s, tl, q, rfl, hq, hprec⟩
  · exact absurd hseen hunseen
  simp only at hq hprec
  -- The node is first in the queue, so its path precedes the walk up to `q`.
  have hnode : node = q ∨ List.Shortlex r (trail parent node) (s ++ [q]) := by
    rcases List.mem_cons.mp hq with rfl | hq
    · exact Or.inl rfl
    · have hsorted := h.levels.sorted
      rw [List.pairwise_append] at hsorted
      exact Or.inr (shortlex_of_precedes ((List.pairwise_cons.mp hsorted.2.1).1 q hq) hprec)
  cases tl with
  | cons z tl =>
    have hlen : (trail parent node).length ≤ (s ++ [q]).length := by
      rcases hnode with rfl | hlt
      · exact hprec.length_le
      · exact (Precedes.length_le (Or.inr hlt))
    refine Or.inr (.of_length_lt ?_)
    simp only [List.length_append, List.length_cons, List.length_nil] at hlen ⊢
    omega
  | nil =>
    rw [List.append_nil] at hchain ⊢
    rcases hnode with rfl | hlt
    · rcases hprec with heq | hlt
      · have hedge : g ∈ succ node := (List.isChain_append.mp hchain).2.2 node (by simp) g (by simp)
        rw [heq]
        rcases hfirst g hedge (hout g (by simp)) hunseen hgoal with rfl | hr
        · exact Or.inl rfl
        · exact Or.inr (shortlex_step _ hr)
      · exact Or.inr (shortlex_append hlt t g)
    · exact Or.inr (shortlex_append hlt t g)

/-- Whatever the number of rounds, a target that is found ends a path that precedes every walk from
a root to a goal that is no root. -/
theorem search_precedes [IsTrans α r] (hsucc : ∀ a, (succ a).Pairwise r) (fuel : ℕ) {m : Marks α}
    (h : Ordered r succ blocked roots goal done m) {t : α}
    (ht : (search succ blocked goal fuel m).2 = some t) {walk : List α} {g : α}
    (hchain : (walk ++ [g]).IsChain fun a b => b ∈ succ a)
    (hhead : ∃ s ∈ roots, (walk ++ [g]).head? = some s) (hout : ∀ y ∈ walk ++ [g], y ∉ blocked)
    (hgoal : goal g = true) (hg : g ∉ roots) :
    Precedes r (trail (search succ blocked goal fuel m).1.parent t) (walk ++ [g]) := by
  induction fuel generalizing done m with
  | zero => simp [search] at ht
  | succ fuel ih =>
    obtain ⟨seen, queue, parent⟩ := m
    cases queue with
    | nil => simp [search] at ht
    | cons node queue =>
      have hnext := fun hnone => h.next (hsucc node) hnone
      have hfound := fun t hsome => h.found (t := t) (hsucc node) hsome hchain hhead hout hgoal hg
      rw [search] at ht ⊢
      -- one round: the scan of the node at the head of the queue finds the target or keeps the
      -- order
      generalize Bfs.scan blocked goal node (succ node) ⟨seen, queue, parent⟩ = c at ht hnext hfound ⊢
      obtain ⟨m', target⟩ := c
      cases target with
      | none => exact ih (hnext rfl) ht
      | some target =>
        obtain rfl := Option.some.inj ht
        exact hfound _ rfl

end Levels

/-! ## The answer -/

section Answer

variable [DecidableEq α] {succ : α → List α} {blocked seeds : List α} {goal stop : α → Bool}
  {fuel : ℕ}

/-- Nodes are queued in the order in which they are discovered. -/
theorem discover_sublist (blocked nexts seen queue : List α) :
    ∃ new, (discover blocked nexts (seen, queue)).2 = queue ++ new ∧ new.Sublist nexts := by
  induction nexts generalizing seen queue with
  | nil => exact ⟨[], by simp [discover]⟩
  | cons next rest ih =>
    rw [discover]
    split
    · obtain ⟨new, hqueue, hsub⟩ := ih seen queue
      exact ⟨new, hqueue, hsub.cons next⟩
    · obtain ⟨new, hqueue, hsub⟩ := ih (next :: seen) (queue ++ [next])
      exact ⟨next :: new, by rw [hqueue]; simp, hsub.cons_cons next⟩

/-- The seeds, once discovered, are in order. -/
theorem ordered_seeds (succ : α → List α) (blocked : List α) (goal : α → Bool)
    (hseeds : seeds.Pairwise r) :
    Ordered r succ blocked (discover blocked seeds ([], [])).2 goal []
      ⟨(discover blocked seeds ([], [])).1, (discover blocked seeds ([], [])).2, []⟩ := by
  obtain ⟨new, hqueue, hseen, hnd, -⟩ := discover_spec blocked seeds [] []
  obtain ⟨new', hqueue', hsub⟩ := discover_sublist blocked seeds [] []
  have hroots (x : α) : x ∈ (discover blocked seeds ([], [])).1 ↔
      x ∈ (discover blocked seeds ([], [])).2 := by
    rw [hseen, hqueue]
    simp
  refine ⟨⟨marks_seeds succ blocked seeds, fun x => ?_, ?_, ?_, fun x hx => Or.inl ((hroots x).mp hx),
    fun x hx hout => absurd ((hroots x).mp hx) hout⟩, by simp⟩
  · simpa using hroots x
  · simpa [hqueue] using hnd
  · rw [List.nil_append, hqueue', List.nil_append]
    exact (hseeds.sublist hsub).imp fun hab => (List.shortlex_singleton_iff _ _).mpr hab

/-- The answer precedes every walk from a seed to a goal that is no seed, through nodes that are not
blocked. -/
theorem shortestPath_precedes [IsTrans α r] (hsucc : ∀ a, (succ a).Pairwise r)
    (hseeds : seeds.Pairwise r) (hstop : ∀ x, stop x = true ↔ x ∈ seeds)
    (hne : shortestPath succ blocked goal stop fuel seeds ≠ []) {walk : List α}
    (hwalk : Walks.Walk (fun a b => b ∈ succ a) {x | x ∈ seeds}
      {x | goal x = true ∧ x ∉ seeds} walk) (hout : ∀ x ∈ walk, x ∉ blocked) :
    Precedes r (shortestPath succ blocked goal stop fuel seeds) walk := by
  have hmem (x : α) : x ∈ (discover blocked seeds ([], [])).2 ↔ x ∈ seeds ∧ x ∉ blocked :=
    mem_discover_seeds seeds x
  have hordered := ordered_seeds succ blocked goal hseeds
  obtain ⟨g, ⟨hgoal, hg⟩, hlast⟩ := hwalk.last
  obtain ⟨s, hs, hhead⟩ := hwalk.head
  obtain ⟨walk, rfl⟩ := List.getLast?_eq_some_iff.mp hlast
  have hroot : s ∈ (discover blocked seeds ([], [])).2 :=
    (hmem s).mpr ⟨hs, hout s (List.mem_of_head? hhead)⟩
  rw [shortestPath] at hne ⊢
  have hsome := search_some goal fuel _ (marks_seeds succ blocked seeds)
  have hprec := fun t ht => search_precedes hsucc fuel hordered (t := t) ht hwalk.chain
    ⟨s, hroot, hhead⟩ hout hgoal fun hin => hg ((hmem g).mp hin).1
  -- the answer is read off the record of the search, backwards from the target
  generalize search succ blocked goal fuel _ = c at hne hsome hprec ⊢
  obtain ⟨m, target⟩ := c
  cases target with
  | none => exact absurd rfl hne
  | some t =>
    obtain ⟨hrec, -, ht⟩ := hsome t rfl
    have htrail := walkBack_eq_trail hrec
      (fun x hx => (hstop x).mpr ((hmem x).mp hx).1)
      (fun x hb hx => by
        rw [Bool.eq_false_iff, ne_eq, hstop]
        exact fun hin => hx ((hmem x).mpr ⟨hin, hb⟩))
      (Nat.lt_succ_self _) (Or.inr ht)
    simp only
    rw [htrail]
    exact hprec t rfl

end Answer

end Fcfn.Bfs
