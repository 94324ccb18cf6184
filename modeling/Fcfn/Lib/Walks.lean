import Mathlib.Data.List.Chain
import Mathlib.Data.Set.Basic
import Mathlib.Logic.Relation

/-!
# Walks that avoid a set of nodes

A directed graph is a relation `edge` on its nodes. `Walk edge seeds goals p` says that `p` lists
the nodes of a walk from a seed to a goal, and `Disconnects edge seeds goals cut` that every such
walk meets `cut`. The other reading of the same fact is by reachability: `Reaches edge cut seeds`
is the set of nodes reached from the seeds outside `cut` through nodes outside `cut`, and a set
disconnects exactly when it leaves no goal reached (`disconnects_iff`). Search algorithms compute
the second form; statements about systems are made in the first. -/

namespace Fcfn.Walks

variable {α : Type*} {edge edge' : α → α → Prop} {seeds goals cut cut' : Set α}

/-- One step along an edge into a node that is not blocked. -/
def Hop (edge : α → α → Prop) (blocked : Set α) (a b : α) : Prop :=
  edge a b ∧ b ∉ blocked

/-- The node `x` is reached from a seed outside `blocked` through nodes outside `blocked`. -/
def Reaches (edge : α → α → Prop) (blocked seeds : Set α) (x : α) : Prop :=
  ∃ s ∈ seeds, s ∉ blocked ∧ Relation.ReflTransGen (Hop edge blocked) s x

/-- The list `p` is a walk along `edge` that starts at a seed and ends at a goal. -/
structure Walk (edge : α → α → Prop) (seeds goals : Set α) (p : List α) : Prop where
  /-- Consecutive nodes are joined by an edge. -/
  chain : p.IsChain edge
  /-- The walk starts at a seed. -/
  head : ∃ s ∈ seeds, p.head? = some s
  /-- The walk ends at a goal. -/
  last : ∃ g ∈ goals, p.getLast? = some g

/-- Every walk from a seed to a goal meets `cut`. -/
def Disconnects (edge : α → α → Prop) (seeds goals cut : Set α) : Prop :=
  ∀ p, Walk edge seeds goals p → ∃ x ∈ p, x ∈ cut

/-- A seed that is not blocked is reached. -/
theorem Reaches.seed {s : α} (hs : s ∈ seeds) (hc : s ∉ cut) : Reaches edge cut seeds s :=
  ⟨s, hs, hc, Relation.ReflTransGen.refl⟩

/-- A reached node reaches its unblocked successors. -/
theorem Reaches.step {a b : α} (ha : Reaches edge cut seeds a) (hab : edge a b) (hb : b ∉ cut) :
    Reaches edge cut seeds b := by
  obtain ⟨s, hs, hsc, hr⟩ := ha
  exact ⟨s, hs, hsc, hr.tail ⟨hab, hb⟩⟩

/-- Induction over what is reached: it holds of the unblocked seeds and passes along hops. -/
theorem Reaches.rec_on {motive : α → Prop} {x : α} (h : Reaches edge cut seeds x)
    (seed : ∀ s ∈ seeds, s ∉ cut → motive s)
    (step : ∀ a b, Reaches edge cut seeds a → motive a → edge a b → b ∉ cut → motive b) :
    motive x := by
  obtain ⟨s, hs, hsc, hr⟩ := h
  induction hr with
  | refl => exact seed s hs hsc
  | tail hr hop ih => exact step _ _ ⟨s, hs, hsc, hr⟩ ih hop.1 hop.2

/-- A reached node is not blocked. -/
theorem Reaches.not_mem {x : α} (h : Reaches edge cut seeds x) : x ∉ cut :=
  h.rec_on (fun _ _ hc => hc) (fun _ _ _ _ _ hb => hb)

/-- More edges, more seeds and a smaller blocked set reach at least as much. -/
theorem Reaches.mono {seeds' : Set α} {x : α} (h : Reaches edge cut seeds x)
    (he : ∀ a b, Reaches edge cut seeds a → edge a b → edge' a b) (hs : seeds ⊆ seeds')
    (hc : cut' ⊆ cut) : Reaches edge' cut' seeds' x :=
  h.rec_on (fun _ hseed hout => .seed (hs hseed) (fun hin => hout (hc hin)))
    (fun _ _ ha ih hab hout => ih.step (he _ _ ha hab) (fun hin => hout (hc hin)))

/-- The nodes of a walk that starts at a reached node and avoids the blocked set are reached. -/
theorem reaches_of_chain {a : α} {p : List α} (ha : Reaches edge cut seeds a)
    (hp : (a :: p).IsChain edge) (hout : ∀ x ∈ p, x ∉ cut) :
    ∀ x ∈ a :: p, Reaches edge cut seeds x := by
  induction p generalizing a with
  | nil => simpa using ha
  | cons b p ih =>
    rw [List.isChain_cons_cons] at hp
    have hb : Reaches edge cut seeds b := ha.step hp.1 (hout b (by simp))
    intro x hx
    rcases List.mem_cons.mp hx with rfl | hx
    · exact ha
    · exact ih hb hp.2 (fun y hy => hout y (List.mem_cons_of_mem _ hy)) x hx

/-- A chain of hops from an unblocked node meets no blocked node. -/
theorem not_mem_of_hops {a : α} {p : List α} (ha : a ∉ cut) (hp : (a :: p).IsChain (Hop edge cut)) :
    ∀ x ∈ a :: p, x ∉ cut := by
  induction p generalizing a with
  | nil => simpa using ha
  | cons b p ih =>
    rw [List.isChain_cons_cons] at hp
    intro x hx
    rcases List.mem_cons.mp hx with rfl | hx
    · exact ha
    · exact ih hp.1.2 hp.2 x hx

/-- A reached goal is the end of a walk that avoids the blocked set. -/
theorem Reaches.exists_walk {x : α} (h : Reaches edge cut seeds x) (hx : x ∈ goals) :
    ∃ p, Walk edge seeds goals p ∧ ∀ y ∈ p, y ∉ cut := by
  obtain ⟨s, hs, hsc, hr⟩ := h
  obtain ⟨l, hchain, hlast⟩ := List.exists_isChain_cons_of_relationReflTransGen hr
  refine ⟨s :: l, ⟨hchain.imp fun _ _ hop => hop.1, ⟨s, hs, rfl⟩, ⟨x, hx, ?_⟩⟩, ?_⟩
  · rw [List.getLast?_eq_some_getLast (List.cons_ne_nil s l), hlast]
  · exact not_mem_of_hops hsc hchain

/-- A walk that avoids the blocked set reaches its goal. -/
theorem Walk.reaches {p : List α} (h : Walk edge seeds goals p) (hout : ∀ x ∈ p, x ∉ cut) :
    ∀ x ∈ p, Reaches edge cut seeds x := by
  obtain ⟨s, hs, hhead⟩ := h.head
  obtain ⟨l, rfl⟩ := List.head?_eq_some_iff.mp hhead
  exact reaches_of_chain (.seed hs (hout s (by simp))) h.chain
    (fun x hx => hout x (List.mem_cons_of_mem _ hx))

/-- A walk read backwards is a walk along the reversed edges. -/
theorem Walk.reverse {p : List α} (h : Walk edge seeds goals p) :
    Walk (fun a b => edge b a) goals seeds p.reverse where
  chain := List.isChain_reverse.mpr h.chain
  head := by simpa using h.last
  last := by simpa using h.head

/-- A set disconnects exactly when no goal is reached around it. -/
theorem disconnects_iff :
    Disconnects edge seeds goals cut ↔ ∀ x, Reaches edge cut seeds x → x ∉ goals := by
  constructor
  · intro h x hx hgoal
    obtain ⟨p, hwalk, hout⟩ := hx.exists_walk hgoal
    obtain ⟨y, hy, hcut⟩ := h p hwalk
    exact hout y hy hcut
  · intro h p hwalk
    by_contra hnone
    have hout : ∀ x ∈ p, x ∉ cut := fun x hx hc => hnone ⟨x, hx, hc⟩
    obtain ⟨g, hg, hlast⟩ := hwalk.last
    exact h g (hwalk.reaches hout g (List.mem_of_getLast? hlast)) hg

/-- A larger cut, over fewer edges, still disconnects. -/
theorem Disconnects.mono (h : Disconnects edge seeds goals cut) (he : ∀ a b, edge' a b → edge a b)
    (hc : cut ⊆ cut') : Disconnects edge' seeds goals cut' := by
  intro p hwalk
  obtain ⟨x, hx, hcut⟩ := h p ⟨hwalk.chain.imp he, hwalk.head, hwalk.last⟩
  exact ⟨x, hx, hc hcut⟩

/-- A cut carries over to a graph that is simulated along a map: when each seed is the image of a
seed, each edge out of the image of a reached node is the image of an edge, and each reached goal
is the image of a goal, the image of a disconnecting set disconnects. -/
theorem Disconnects.image {β : Type*} {edge₂ : β → β → Prop} {seeds₂ goals₂ : Set β} {f : α → β}
    (h : Disconnects edge seeds goals cut) (hseeds : ∀ b ∈ seeds₂, ∃ a ∈ seeds, f a = b)
    (hedge : ∀ a, Reaches edge ∅ seeds a → ∀ b, edge₂ (f a) b → ∃ a', edge a a' ∧ f a' = b)
    (hgoals : ∀ a, Reaches edge ∅ seeds a → f a ∈ goals₂ → a ∈ goals) :
    Disconnects edge₂ seeds₂ goals₂ (f '' cut) := by
  rw [disconnects_iff] at h ⊢
  intro b hb hgoal
  -- A reached node of the simulated graph is the image of a reached node.
  obtain ⟨a, ha, rfl⟩ : ∃ a, Reaches edge cut seeds a ∧ f a = b := by
    refine hb.rec_on (motive := fun b => ∃ a, Reaches edge cut seeds a ∧ f a = b)
      (fun s hs hout => ?_) (fun x y _ hx hxy hout => ?_)
    · obtain ⟨a, ha, rfl⟩ := hseeds s hs
      exact ⟨a, .seed ha fun hc => hout ⟨a, hc, rfl⟩, rfl⟩
    · obtain ⟨a, ha, rfl⟩ := hx
      have hfree := ha.mono (fun _ _ _ hab => hab) subset_rfl (Set.empty_subset cut)
      obtain ⟨a', haa', rfl⟩ := hedge a hfree y hxy
      exact ⟨a', ha.step haa' fun hc => hout ⟨a', hc, rfl⟩, rfl⟩
  exact h a ha (hgoals a (ha.mono (fun _ _ _ hab => hab) subset_rfl (Set.empty_subset cut)) hgoal)

/-- Nothing has to be cut when there are no seeds. -/
theorem disconnects_of_no_seeds (h : seeds = ∅) : Disconnects edge seeds goals cut := by
  intro p hwalk
  obtain ⟨s, hs, -⟩ := hwalk.head
  simp [h] at hs

/-- Nothing has to be cut when there are no goals. -/
theorem disconnects_of_no_goals (h : goals = ∅) : Disconnects edge seeds goals cut := by
  intro p hwalk
  obtain ⟨g, hg, -⟩ := hwalk.last
  simp [h] at hg

end Fcfn.Walks
